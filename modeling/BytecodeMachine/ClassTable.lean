import BytecodeMachine.Class.Assignable
import BytecodeMachine.Trap

/-!
The table of loaded classes, and how a name becomes a class: what the table holds is kept, an array is
made from its name, a primitive from nothing, and any other class from the first library that has it,
each after the classes that it links to. Names that are being loaded are passed along, and meeting one
of them again is an error; that is also why loading ends.
-/

namespace BytecodeMachine

abbrev ClassTable := Entries ClassName Class

namespace ClassTable

inductive Role where
  | component
  | superclass
  | interface
  deriving DecidableEq, Repr

def Role.refuse? (owner : ClassName) (c : Class) : Role → Option LinkError
  | .component => none
  | .superclass => if c.isInterface then some (.extendsInterface owner c.name) else none
  | .interface => if c.isInterface then none else some (.implementsClass owner c.name)

abbrev Link := Role × ClassName

structure Definition where
  links : List Link
  build : List Class → Class

def classData? (libraries : List Library) (n : ClassName) : Option ClassData :=
  libraries.findSome? fun l => l.class? n

def placeFields (owner : ClassName) : Nat → List FieldType → List FieldData →
    List Field × List FieldType
  | _, layout, [] => ([], layout)
  | index, layout, d :: ds =>
      let slot := if d.access.isStatic then none else some layout.length
      let layout := if d.access.isStatic then layout else layout ++ [d.type]
      let (fields, layout) := placeFields owner (index + 1) layout ds
      (⟨owner, d.name, d.type, d.access, index, slot, d.constant⟩ :: fields, layout)

def placeMethods (owner : ClassName) (ds : List MethodData) : List Method :=
  ds.map fun d => ⟨owner, d.name, d.type, d.access, d.code⟩

def regular (n : ClassName) (d : ClassData) (superclass : Option Class)
    (interfaces : List Class) : Class :=
  let c := Class.start n superclass interfaces none d.access .regular
  let (fields, layout) := placeFields n 0 c.layout d.fields
  { c with source := d.source, fields := fields, methods := placeMethods n d.methods,
           layout := layout }

def array (n : ClassName) (t : FieldType) (component : Option Class) (supers : List Class) : Class :=
  let hidden := Flag.isFinal ||| Flag.isAbstract
  let visible := (component.map Class.isPublic).getD true
  Class.start n supers.head? supers.tail component
    ⟨if visible then hidden ||| Flag.isPublic else hidden⟩ (.array t)

def primitive (n : ClassName) (b : BaseType) : Class :=
  Class.start n none [] none ⟨Flag.isPublic ||| Flag.isFinal ||| Flag.isAbstract⟩ (.primitive b)

def arraySupers : List Link :=
  [(.component, .object), (.component, .cloneable), (.component, .serializable)]

def defineArray (n : ClassName) : Except LinkError Definition :=
  match FieldType.parse n.text with
  | .ok (.array t) =>
      match t.className? with
      | some m =>
          .ok ⟨(.component, m) :: arraySupers, fun cs => array n t cs.head? cs.tail⟩
      | none => .ok ⟨arraySupers, array n t none⟩
  | _ => .error (.malformed n .notArrayType)

def defineRegular (n : ClassName) (d : ClassData) : Except LinkError Definition :=
  let interfaces := d.interfaces.map fun i => (Role.interface, i)
  if d.name ≠ n then .error (.malformed n .otherName)
  else match d.superclass with
    | some s =>
        .ok ⟨(.superclass, s) :: interfaces, fun cs => regular n d cs.head? cs.tail⟩
    | none =>
        if n = .object then .ok ⟨interfaces, regular n d none⟩
        else .error (.malformed n .noSuperclass)

def define (libraries : List Library) (n : ClassName) : Except LinkError Definition :=
  if n.isArray then defineArray n
  else match BaseType.all.find? fun b => b.primitiveName = n.text with
    | some b => .ok ⟨[], fun _ => primitive n b⟩
    | none =>
        match classData? libraries n with
        | none => .error (.classNotFound n)
        | some d => defineRegular n d

def known (libraries : List Library) : List ClassName :=
  libraries.flatMap fun l => l.classes.map (·.1)

theorem mem_known {libraries : List Library} {n : ClassName} {d : ClassData}
    (h : classData? libraries n = some d) : n ∈ known libraries := by
  obtain ⟨l, hl, hd⟩ := List.exists_of_findSome?_eq_some h
  simp only [Library.class?, Entries.get?, Option.map_eq_some_iff] at hd
  obtain ⟨e, he, -⟩ := hd
  have hn : e.1 = n := by simpa using List.find?_some he
  exact List.mem_flatMap.2 ⟨l, hl, List.mem_map.2 ⟨e, List.mem_of_find?_eq_some he, hn⟩⟩

def absent (names pending : List ClassName) : Nat :=
  names.countP fun n => n ∉ pending

theorem absent_cons_le (names : List ClassName) (n : ClassName) (pending : List ClassName) :
    absent names (n :: pending) ≤ absent names pending :=
  List.countP_mono_left fun m _ h => by simp at h ⊢; exact h.2

theorem absent_cons_lt {names : List ClassName} {n : ClassName} {pending : List ClassName}
    (hn : n ∈ names) (hp : n ∉ pending) : absent names (n :: pending) < absent names pending := by
  induction names with
  | nil => simp at hn
  | cons k ks ih =>
      by_cases hk : k = n
      · subst hk
        have := absent_cons_le ks k pending
        simp only [absent, List.countP_cons] at this ⊢
        simp [hp]
        simpa using Nat.lt_succ_of_le this
      · have := ih (by simpa [Ne.symm hk] using hn)
        simp only [absent, List.countP_cons, List.mem_cons, hk, false_or] at this ⊢
        omega

def remaining (libraries : List Library) (pending : List ClassName) : Nat :=
  absent (known libraries) pending

def rank (n : ClassName) : Nat :=
  if n.isArray then n.text.toList.length else 0

theorem rank_le (n : ClassName) : rank n ≤ n.text.toList.length := by
  unfold rank
  split <;> omega

theorem rank_pos {n : ClassName} (h : n.isArray = true) : 0 < rank n := by
  have : n.text.toList ≠ [] := by
    intro h'
    simp [ClassName.isArray, h'] at h
  simpa [rank, h] using List.length_pos_iff.2 this

theorem rank_component {n m : ClassName} {t : FieldType} (ha : n.isArray = true)
    (hn : FieldType.parse n.text = .ok (.array t)) (hm : t.className? = some m) :
    rank m < rank n := by
  have hr : n.text.toList = '[' :: t.render := by
    have := FieldType.eq_of_read (Reader.of_all hn)
    simpa [FieldType.render] using this
  have hlen : m.text.toList.length ≤ t.render.length := by
    cases t with
    | base b => simp [FieldType.className?] at hm
    | object k =>
        simp only [FieldType.className?, Option.some.injEq] at hm
        subst hm
        simp [FieldType.render, ClassName.render]
        omega
    | array u =>
        simp only [FieldType.className?] at hm
        cases ho : ClassName.ofString (FieldType.array u).text with
        | error e => simp [ho, Except.toOption] at hm
        | ok k =>
            simp only [ho, Except.toOption, Option.some.injEq] at hm
            rw [← hm, ClassName.text_of_ofString ho]
            simp [FieldType.text]
  have hle := rank_le m
  have heq : rank n = t.render.length + 1 := by simp [rank, ha, hr]
  omega

theorem lower_of_mem_links {libraries : List Library} {pending : List ClassName} {n : ClassName}
    {d : Definition} (hd : define libraries n = .ok d) (hp : n ∉ pending) {l : Link}
    (hl : l ∈ d.links) :
    rank l.2 < rank n ∨ remaining libraries (n :: pending) < remaining libraries pending := by
  unfold define at hd
  split at hd
  · rename_i ha
    left
    have hsupers : ∀ k ∈ arraySupers, rank k.2 < rank n := by
      intro k hk
      have := rank_pos ha
      simp only [arraySupers, List.mem_cons, List.not_mem_nil, or_false] at hk
      rcases hk with rfl | rfl | rfl <;> simpa [rank, show ClassName.object.isArray = false by decide,
        show ClassName.cloneable.isArray = false by decide,
        show ClassName.serializable.isArray = false by decide] using this
    unfold defineArray at hd
    split at hd
    · rename_i t ht
      split at hd
      · rename_i m hm
        simp only [Except.ok.injEq] at hd
        subst hd
        rcases List.mem_cons.1 hl with rfl | hl
        · exact rank_component ha ht hm
        · exact hsupers l hl
      · simp only [Except.ok.injEq] at hd
        subst hd
        exact hsupers l hl
    · simp at hd
  · split at hd
    · simp only [Except.ok.injEq] at hd
      subst hd
      simp at hl
    · split at hd
      · simp at hd
      · rename_i data hdata
        exact .inr (absent_cons_lt (mem_known hdata) hp)

/-- A bound on the ranks of some links, which is odd for none of them. -/
def bound (links : List Link) : Nat :=
  (links.map fun l => 2 * rank l.2 + 2).foldr max 0

theorem bound_cons (l : Link) (links : List Link) :
    bound (l :: links) = max (2 * rank l.2 + 2) (bound links) := rfl

theorem bound_lt {links : List Link} {r : Nat} (h : ∀ l ∈ links, rank l.2 < r) :
    bound links < 2 * r + 1 := by
  induction links with
  | nil => simp [bound]
  | cons l links ih =>
      have h1 := h l (by simp)
      have h2 := ih fun k hk => h k (by simp [hk])
      rw [bound_cons]
      omega

def register (c : Class) (table : ClassTable) : Class × ClassTable :=
  match table.get? c.name with
  | some old => (old, table)
  | none => (c, table ++ [(c.name, c)])

mutual

/-- Loads a class while the pending ones are being loaded. The table may grow even on failure. -/
def load (libraries : List Library) (pending : List ClassName) (n : ClassName)
    (table : ClassTable) : Except LinkError Class × ClassTable :=
  match table.get? n with
  | some c => (.ok c, table)
  | none =>
      if _hp : n ∈ pending then (.error (.malformed n .circular), table)
      else match _hd : define libraries n with
        | .error e => (.error e, table)
        | .ok d =>
            match loadLinks libraries (n :: pending) n d.links table with
            | (.error e, table) => (.error e, table)
            | (.ok cs, table) =>
                let (c, table) := register (d.build cs) table
                (.ok c, table)
termination_by (remaining libraries pending, 2 * rank n + 1, 0)
decreasing_by
  have hle := absent_cons_le (known libraries) n pending
  by_cases hlt : remaining libraries (n :: pending) < remaining libraries pending
  · exact .left _ _ hlt
  · have heq : remaining libraries (n :: pending) = remaining libraries pending :=
      Nat.le_antisymm hle (Nat.le_of_not_lt hlt)
    rw [heq]
    refine .right _ (.left _ _ (bound_lt fun l hl => ?_))
    exact (lower_of_mem_links _hd _hp hl).resolve_right hlt

def loadLinks (libraries : List Library) (pending : List ClassName) (owner : ClassName)
    (links : List Link) (table : ClassTable) : Except LinkError (List Class) × ClassTable :=
  match links with
  | [] => (.ok [], table)
  | (role, n) :: rest =>
      match load libraries pending n table with
      | (.error e, table) => (.error e, table)
      | (.ok c, table) =>
          match role.refuse? owner c with
          | some e => (.error e, table)
          | none =>
              match loadLinks libraries pending owner rest table with
              | (.error e, table) => (.error e, table)
              | (.ok cs, table) => (.ok (c :: cs), table)
termination_by (remaining libraries pending, bound links, links.length)
decreasing_by
  · refine .right _ (.left _ _ ?_)
    rw [bound_cons]
    simp only
    omega
  · by_cases h : bound rest < bound ((role, n) :: rest)
    · exact .right _ (.left _ _ h)
    · have heq : bound rest = bound ((role, n) :: rest) := by
        rw [bound_cons] at h ⊢
        omega
      rw [heq]
      exact .right _ (.right _ (by simp))

end

end ClassTable

end BytecodeMachine
