import BytecodeMachine.CoreLibrary
import BytecodeMachine.Resolution
import Mathlib.Data.List.Forall2

namespace BytecodeMachine

namespace ClassTable

variable {libraries : List Library} {table table' : ClassTable} {n : ClassName} {c : Class}

def Extends (table table' : ClassTable) : Prop :=
  ∀ n c, table.get? n = some c → table'.get? n = some c

theorem Extends.refl (table : ClassTable) : Extends table table := fun _ _ h => h

theorem Extends.trans {t1 t2 t3 : ClassTable} (h : Extends t1 t2) (h' : Extends t2 t3) :
    Extends t1 t3 := fun n c hc => h' n c (h n c hc)

def Links (table : ClassTable) (owner : ClassName) (links : List Link) (cs : List Class) : Prop :=
  List.Forall₂ (fun l k => table.get? l.2 = some k ∧ l.1.refuse? owner k = none) links cs

theorem Links.mono {owner : ClassName} {links : List Link} {cs : List Class}
    (h : Links table owner links cs) (he : Extends table table') : Links table' owner links cs :=
  h.imp fun l k hl => ⟨he l.2 k hl.1, hl.2⟩

theorem Links.exists_of_mem {owner : ClassName} {links : List Link} {cs : List Class}
    (h : Links table owner links cs) (hc : c ∈ cs) : ∃ l ∈ links, table.get? l.2 = some c := by
  induction h with
  | nil => cases hc
  | @cons l k links cs hl _ ih =>
    rcases List.mem_cons.1 hc with rfl | hc
    · exact ⟨l, List.mem_cons_self, hl.1⟩
    · obtain ⟨l', hl', hk⟩ := ih hc
      exact ⟨l', List.mem_cons_of_mem l hl', hk⟩

inductive DefinesRegular (n : ClassName) (d : ClassData) : Definition → Prop
  | extending {s : ClassName} (hn : d.name = n) (hs : d.superclass = some s) :
      DefinesRegular n d ⟨(.superclass, s) :: d.interfaces.map fun i => (Role.interface, i),
        fun cs => regular n d cs.head? cs.tail⟩
  | root (hn : d.name = n) (hs : d.superclass = none) (ho : n = .object) :
      DefinesRegular n d ⟨d.interfaces.map fun i => (Role.interface, i), regular n d none⟩

inductive Defines (libraries : List Library) (n : ClassName) : Definition → Prop
  | arrayOf {t : FieldType} {m : ClassName} (ha : n.isArray = true)
      (ht : FieldType.parse n.text = .ok (.array t)) (hm : t.className? = some m) :
      Defines libraries n ⟨(.component, m) :: arraySupers, fun cs => array n t cs.head? cs.tail⟩
  | baseArray {t : FieldType} (ha : n.isArray = true)
      (ht : FieldType.parse n.text = .ok (.array t)) (hm : t.className? = none) :
      Defines libraries n ⟨arraySupers, array n t none⟩
  | primitive {b : BaseType} (ha : n.isArray = false)
      (hb : (BaseType.all.find? fun b => b.primitiveName = n.text) = some b) :
      Defines libraries n ⟨[], fun _ => primitive n b⟩
  | regular {d : ClassData} {k : Definition} (ha : n.isArray = false)
      (hd : classData? libraries n = some d) (hk : DefinesRegular n d k) : Defines libraries n k

theorem definesRegular {d : ClassData} {k : Definition} (h : defineRegular n d = .ok k) :
    DefinesRegular n d k := by
  simp only [defineRegular] at h
  split at h
  · cases h
  · rename_i hn
    have hname : d.name = n := Decidable.of_not_not hn
    split at h
    · rename_i s hs
      cases h
      exact .extending hname hs
    · rename_i hs
      split at h
      · rename_i ho
        cases h
        exact .root hname hs ho
      · cases h

theorem defines {k : Definition} (h : define libraries n = .ok k) : Defines libraries n k := by
  simp only [define, defineArray] at h
  split at h
  · rename_i ha
    split at h
    · rename_i t ht
      split at h
      · rename_i m hm
        cases h
        exact .arrayOf ha ht hm
      · rename_i hm
        cases h
        exact .baseArray ha ht hm
    · cases h
  · rename_i ha
    have hfalse : n.isArray = false := by simpa using ha
    split at h
    · rename_i b hb
      cases h
      exact .primitive hfalse hb
    · split at h
      · cases h
      · rename_i d hd
        exact .regular hfalse hd (definesRegular h)

section Regular

variable {d : ClassData} {k : Definition}

theorem DefinesRegular.name (h : DefinesRegular n d k) : d.name = n := by
  cases h with
  | extending hn _ => exact hn
  | root hn _ _ => exact hn

theorem DefinesRegular.build (h : DefinesRegular n d k) (cs : List Class) :
    ∃ superclass interfaces, k.build cs = ClassTable.regular n d superclass interfaces := by
  cases h with
  | extending => exact ⟨_, _, rfl⟩
  | root => exact ⟨_, _, rfl⟩

theorem DefinesRegular.links (h : DefinesRegular n d k) :
    ∀ l ∈ k.links, l.2 ∈ d.superclass.toList ++ d.interfaces := by
  cases h with
  | extending _ hs => simp +contextual [hs]
  | root _ hs _ => simp +contextual [hs]

end Regular

def Defined (libraries : List Library) (table : ClassTable) (n : ClassName) (c : Class) : Prop :=
  ∃ d cs, define libraries n = .ok d ∧ c = d.build cs ∧ Links table n d.links cs

theorem Defined.mono (h : Defined libraries table n c) (he : Extends table table') :
    Defined libraries table' n c := by
  obtain ⟨d, cs, hd, hc, hl⟩ := h
  exact ⟨d, cs, hd, hc, hl.mono he⟩

def Closed (libraries : List Library) (table : ClassTable) : Prop :=
  ∀ n c, table.get? n = some c → Defined libraries table n c

theorem closed_nil (libraries : List Library) : Closed libraries [] := by
  intro n c h
  simp at h

theorem name_build {d : Definition} (h : define libraries n = .ok d) (cs : List Class) :
    (d.build cs).name = n := by
  cases defines h with
  | regular _ _ hk =>
    obtain ⟨superclass, interfaces, hb⟩ := hk.build cs
    rw [hb]
    rfl
  | _ => rfl

theorem Closed.name (h : Closed libraries table) (hc : table.get? n = some c) : c.name = n := by
  obtain ⟨d, cs, hd, rfl, -⟩ := h n c hc
  exact name_build hd cs

theorem mem_of_mem_above_build {d : Definition} (h : define libraries n = .ok d) {cs : List Class}
    {s : Class} (hs : s ∈ (d.build cs).above true) : s ∈ cs := by
  have hmem : s ∈ cs.head?.toList ++ cs.tail → s ∈ cs := by
    cases cs <;> simp
  cases defines h with
  | arrayOf =>
    refine List.mem_of_mem_tail ?_
    cases hc : cs.tail with
    | nil => simp [Class.above, array, Class.start, hc] at hs
    | cons k ks => simpa [Class.above, array, Class.start, hc] using hs
  | baseArray => exact hmem hs
  | primitive => cases hs
  | regular _ _ hk =>
    cases hk with
    | extending => exact hmem hs
    | root => exact hs

theorem Closed.above (h : Closed libraries table) (hc : table.get? n = some c) {s : Class}
    (hs : s ∈ c.above true) : table.get? s.name = some s := by
  obtain ⟨d, cs, hd, rfl, hl⟩ := h n c hc
  obtain ⟨l, -, hl⟩ := hl.exists_of_mem (mem_of_mem_above_build hd hs)
  rwa [h.name hl]

theorem get?_append (n : ClassName) (c : Class) (k : ClassName) :
    Entries.get? (table ++ [(n, c)]) k =
      ((table.get? k).or (if n = k then some c else none)) := by
  induction table with
  | nil => simp [Entries.get?_cons]
  | cons e rest ih =>
    simp only [List.cons_append, Entries.get?_cons, ih]
    split <;> rfl

theorem extends_register (c : Class) (table : ClassTable) :
    Extends table (register c table).2 := by
  intro n k h
  unfold register
  split
  · exact h
  · simp [get?_append, h]

theorem get?_register (c : Class) (table : ClassTable) :
    (register c table).2.get? c.name = some (register c table).1 := by
  unfold register
  split
  · assumption
  · rename_i h
    simp [get?_append, h]

theorem closed_register (h : Closed libraries table) (hc : Defined libraries table c.name c) :
    Closed libraries (register c table).2 := by
  intro n k hk
  have he := extends_register c table
  unfold register at hk
  split at hk
  · exact (h n k hk).mono he
  · rw [get?_append] at hk
    cases hn : table.get? n with
    | some old =>
      simp only [hn, Option.some_or, Option.some.injEq] at hk
      subst hk
      exact (h n old hn).mono he
    | none =>
      simp only [hn, Option.none_or] at hk
      split at hk
      · rename_i hname
        cases hk
        subst hname
        exact hc.mono he
      · cases hk

structure Loaded (libraries : List Library) (table table' : ClassTable) : Prop where
  grows : Extends table table'
  closed : Closed libraries table → Closed libraries table'

theorem Loaded.refl : Loaded libraries table table := ⟨Extends.refl table, id⟩

theorem Loaded.trans {t1 t2 t3 : ClassTable} (h : Loaded libraries t1 t2)
    (h' : Loaded libraries t2 t3) : Loaded libraries t1 t3 :=
  ⟨h.grows.trans h'.grows, fun hc => h'.closed (h.closed hc)⟩

def LoadedClass (libraries : List Library) (n : ClassName) (table : ClassTable)
    (r : Except LinkError Class × ClassTable) : Prop :=
  Loaded libraries table r.2 ∧ ∀ c, r.1 = .ok c → r.2.get? n = some c

def LoadedLinks (libraries : List Library) (owner : ClassName) (links : List Link)
    (table : ClassTable) (r : Except LinkError (List Class) × ClassTable) : Prop :=
  Loaded libraries table r.2 ∧ ∀ cs, r.1 = .ok cs → Links r.2 owner links cs

theorem loaded_register {d : Definition} {cs : List Class} (hd : define libraries n = .ok d)
    (hl : Links table n d.links cs) :
    LoadedClass libraries n table
      (.ok (register (d.build cs) table).1, (register (d.build cs) table).2) := by
  have hname := name_build hd cs
  refine ⟨⟨extends_register _ _, fun hc => closed_register hc ?_⟩, ?_⟩
  · rw [hname]
    exact ⟨d, cs, hd, rfl, hl⟩
  · intro c hc
    cases hc
    have := get?_register (d.build cs) table
    rwa [hname] at this

theorem load_of_error {pending : List ClassName} {e : LinkError} (hn : table.get? n = none)
    (hp : n ∉ pending) (hd : define libraries n = .error e) :
    load libraries pending n table = (.error e, table) := by
  rw [load, hn]
  simp only [dif_neg hp]
  split
  · rename_i e' he
    cases hd.symm.trans he
    rfl
  · rename_i d he
    cases hd.symm.trans he

theorem load_of_define {pending : List ClassName} {d : Definition} (hn : table.get? n = none)
    (hp : n ∉ pending) (hd : define libraries n = .ok d) :
    load libraries pending n table =
      match loadLinks libraries (n :: pending) n d.links table with
      | (.error e, table) => (.error e, table)
      | (.ok cs, table) => (.ok (register (d.build cs) table).1, (register (d.build cs) table).2) := by
  rw [load, hn]
  simp only [dif_neg hp]
  split
  · rename_i e he
    cases hd.symm.trans he
  · rename_i d' he
    cases hd.symm.trans he
    rfl

theorem load_of_links {pending : List ClassName} {d : Definition} {cs : List Class} {c : Class}
    {table' table'' : ClassTable} (hn : table.get? n = none) (hp : n ∉ pending)
    (hd : define libraries n = .ok d)
    (hl : loadLinks libraries (n :: pending) n d.links table = (.ok cs, table'))
    (hr : register (d.build cs) table' = (c, table'')) :
    load libraries pending n table = (.ok c, table'') := by
  rw [load_of_define hn hp hd, hl]
  dsimp only
  rw [hr]

theorem loadLinks_nil {pending : List ClassName} {owner : ClassName} :
    loadLinks libraries pending owner [] table = (.ok [], table) := by
  rw [loadLinks]

theorem loadLinks_cons {pending : List ClassName} {owner : ClassName} {role : Role}
    {links : List Link} {c : Class} {cs : List Class} {table' table'' : ClassTable}
    (hc : load libraries pending n table = (.ok c, table'))
    (hr : role.refuse? owner c = none)
    (hl : loadLinks libraries pending owner links table' = (.ok cs, table'')) :
    loadLinks libraries pending owner ((role, n) :: links) table = (.ok (c :: cs), table'') := by
  rw [loadLinks, hc]
  dsimp only
  rw [hr]
  dsimp only
  rw [hl]

theorem load_loaded (libraries : List Library) :
    (∀ pending n table, LoadedClass libraries n table (load libraries pending n table)) ∧
      ∀ pending owner links table,
        LoadedLinks libraries owner links table (loadLinks libraries pending owner links table) := by
  apply load.mutual_induct libraries
    (fun pending n table => LoadedClass libraries n table (load libraries pending n table))
    (fun pending owner links table =>
      LoadedLinks libraries owner links table (loadLinks libraries pending owner links table))
  case case1 =>
    intro pending n table c hc
    rw [load, hc]
    exact ⟨.refl, fun k hk => by cases hk; exact hc⟩
  case case2 =>
    intro pending n table hc hp
    rw [load, hc]
    simp only [dif_pos hp]
    exact ⟨.refl, fun k hk => by cases hk⟩
  case case3 =>
    intro pending n table hn hp e hd
    rw [load_of_error hn hp hd]
    exact ⟨.refl, fun k hk => by cases hk⟩
  case case4 =>
    intro pending n table hn hp d hd e table' hl ih
    rw [hl] at ih
    rw [load_of_define hn hp hd, hl]
    exact ⟨ih.1, fun k hk => by cases hk⟩
  case case5 =>
    intro pending n table hn hp d hd cs table' hl c table'' _ ih
    rw [hl] at ih
    rw [load_of_define hn hp hd, hl]
    have h := loaded_register hd (ih.2 cs rfl)
    exact ⟨ih.1.trans h.1, h.2⟩
  case case6 =>
    intro pending owner table
    rw [loadLinks]
    refine ⟨.refl, fun cs hcs => ?_⟩
    cases hcs
    exact .nil
  case case7 =>
    intro pending owner table role n rest e table' hl ih
    rw [hl] at ih
    rw [loadLinks, hl]
    exact ⟨ih.1, fun cs hcs => by cases hcs⟩
  case case8 =>
    intro pending owner table role n rest c table' hl e hr ih
    rw [hl] at ih
    rw [loadLinks, hl]
    simp only [hr]
    exact ⟨ih.1, fun cs hcs => by cases hcs⟩
  case case9 =>
    intro pending owner table role n rest c table' hl hr e table'' hrest ih ihrest
    rw [hl] at ih
    rw [hrest] at ihrest
    rw [loadLinks, hl]
    simp only [hr, hrest]
    exact ⟨ih.1.trans ihrest.1, fun cs hcs => by cases hcs⟩
  case case10 =>
    intro pending owner table role n rest c table' hl hr cs table'' hrest ih ihrest
    rw [hl] at ih
    rw [hrest] at ihrest
    rw [loadLinks, hl]
    simp only [hr, hrest]
    refine ⟨ih.1.trans ihrest.1, fun ks hks => ?_⟩
    cases hks
    exact .cons ⟨ihrest.1.grows n c (ih.2 c rfl), hr⟩ (ihrest.2 cs rfl)

theorem load_extends (libraries : List Library) (pending : List ClassName) (n : ClassName)
    (table : ClassTable) : Loaded libraries table (load libraries pending n table).2 :=
  ((load_loaded libraries).1 pending n table).1

theorem get?_of_load {pending : List ClassName}
    (h : load libraries pending n table = (.ok c, table')) : table'.get? n = some c := by
  have := ((load_loaded libraries).1 pending n table).2 c
  rw [h] at this
  exact this rfl

end ClassTable

def Resolving.Keeps {α : Type} (r : Resolving α) (libraries : List Library)
    (Q : α → ClassTable → Prop) (table : ClassTable) : Prop :=
  ClassTable.Loaded libraries table (r table).2 ∧ ∀ a, (r table).1 = .ok a → Q a (r table).2

namespace Resolving

open ClassTable

variable {α β : Type} {libraries : List Library} {table : ClassTable}

theorem keeps_pure {a : α} {Q : α → ClassTable → Prop} (h : Q a table) :
    (pure a : Resolving α).Keeps libraries Q table :=
  ⟨.refl, fun b hb => by cases hb; exact h⟩

theorem keeps_throw {e : LinkError} {Q : α → ClassTable → Prop} :
    (throw e : Resolving α).Keeps libraries Q table :=
  ⟨.refl, fun b hb => by cases hb⟩

theorem bind_apply (x : Resolving α) (f : α → Resolving β) (table : ClassTable) :
    (x >>= f) table = match x table with
      | (.ok a, table) => f a table
      | (.error e, table) => (.error e, table) := by
  simp only [bind, ExceptT.bind, ExceptT.mk, StateT.bind]
  rcases x table with ⟨r, table'⟩
  cases r <;> rfl

theorem Keeps.bind {x : Resolving α} {f : α → Resolving β} {P : α → ClassTable → Prop}
    {Q : β → ClassTable → Prop} (hx : x.Keeps libraries P table)
    (hf : ∀ a table, P a table → (f a).Keeps libraries Q table) :
    (x >>= f).Keeps libraries Q table := by
  obtain ⟨hl, hq⟩ := hx
  unfold Keeps
  rw [bind_apply]
  rcases hr : x table with ⟨r, table'⟩
  rw [hr] at hl hq
  cases r with
  | ok a =>
    have h := hf a table' (hq a rfl)
    exact ⟨hl.trans h.1, h.2⟩
  | error e => exact ⟨hl, fun b hb => by cases hb⟩

def Finds {α : Type} (r : List Library → Resolving α) (entry : α → ClassName × Class) : Prop :=
  ∀ libraries table, (r libraries).Keeps libraries
    (fun a table => table.get? (entry a).1 = some (entry a).2) table

theorem keeps_checkClass (target : Class) (context : Option Class) {Q : Unit → ClassTable → Prop}
    (h : Q () table) : (checkClass target context).Keeps libraries Q table := by
  unfold checkClass
  split
  · exact keeps_pure h
  · dsimp only
    split
    · exact keeps_pure h
    · exact keeps_throw

theorem keeps_checkMember (owner : Class) (v : Visibility) (member : String)
    (context : Option Class) {Q : Unit → ClassTable → Prop}
    (h : (∀ k, context = some k → k.seesMember owner v = true) → Q () table) :
    (checkMember owner v member context).Keeps libraries Q table := by
  unfold checkMember
  split
  · exact keeps_pure (h nofun)
  · split
    case isTrue hv => exact keeps_pure (h fun _ hk => Option.some.inj hk ▸ hv)
    case isFalse => exact keeps_throw

theorem finds_loadClass (n : ClassName) :
    Finds (fun libraries => loadClass libraries n) fun c => (n, c) :=
  fun libraries table => (load_loaded libraries).1 [] n table

theorem finds_resolveClass (n : ClassName) (context : Option Class) :
    Finds (fun libraries => resolveClass libraries n context) fun c => (n, c) := by
  intro libraries table
  refine (finds_loadClass n libraries table).bind fun c table hc => ?_
  refine (keeps_checkClass (Q := fun _ table => table.get? n = some c) c context hc).bind ?_
  exact fun _ table hc => keeps_pure hc

theorem finds_arrayClass (t : FieldType) :
    ∃ n, Finds (fun libraries => arrayClass libraries t) fun c => (n, c) := by
  unfold arrayClass
  cases (FieldType.array t).className? with
  | some n => exact ⟨n, finds_loadClass n⟩
  | none => exact ⟨.object, fun _ _ => keeps_throw⟩

theorem finds_resolveField (f : FieldRef) (context : Option Class) :
    Finds (fun libraries => resolveField libraries f context) fun a => (a.2.owner, a.1) := by
  intro libraries table
  refine (finds_resolveClass f.klass context libraries table).bind fun c table _ => ?_
  split
  · exact keeps_throw
  · rename_i field _
    dsimp only
    split
    · exact keeps_throw
    · refine (finds_loadClass field.owner libraries table).bind fun owner table ho => ?_
      refine (keeps_checkMember
        (Q := fun _ table => table.get? field.owner = some owner) _ _ _ _ fun _ => ho).bind ?_
      exact fun _ table ho => keeps_pure ho

theorem keeps_resolveMethod (m : MethodRef) (context : Option Class) (libraries : List Library)
    (table : ClassTable) :
    (resolveMethod libraries m context).Keeps libraries (fun a table =>
      table.get? a.2.owner = some a.1 ∧
        (∃ c, table.get? m.klass = some c ∧ c.lookupMethod? m.name m.type = some a.2) ∧
        ∀ k, context = some k → k.seesMember a.1 a.2.access.visibility = true) table := by
  refine (finds_resolveClass m.klass context libraries table).bind fun c table hc => ?_
  split
  · exact keeps_throw
  · rename_i method hm
    have hload := (load_loaded libraries).1 [] method.owner table
    refine Keeps.bind (P := fun owner table =>
      table.get? method.owner = some owner ∧ table.get? m.klass = some c) ?_ fun owner table ho => ?_
    · exact ⟨hload.1, fun owner ho => ⟨hload.2 owner ho, hload.1.grows _ _ hc⟩⟩
    · refine (keeps_checkMember (Q := fun _ table =>
        (table.get? method.owner = some owner ∧ table.get? m.klass = some c) ∧
          ∀ k, context = some k → k.seesMember owner method.access.visibility = true)
        _ _ _ _ fun hv => ⟨ho, hv⟩).bind ?_
      exact fun _ table ho => keeps_pure ⟨ho.1.1, ⟨c, ho.1.2, hm⟩, ho.2⟩

theorem finds_resolveMethod (m : MethodRef) (context : Option Class) :
    Finds (fun libraries => resolveMethod libraries m context) fun a => (a.2.owner, a.1) :=
  fun libraries table =>
    have h := keeps_resolveMethod m context libraries table
    ⟨h.1, fun a ha => (h.2 a ha).1⟩

end Resolving

end BytecodeMachine
