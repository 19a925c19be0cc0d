import BytecodeMachine.Proofs.Loading.CoreClasses
import Mathlib.Logic.Relation

namespace BytecodeMachine.ClassTable

open Relation

variable {libraries : List Library} {table : ClassTable} {pending : List ClassName}
  {n m owner : ClassName} {c : Class} {d : Definition} {e : LinkError} {links before rest : List Link}
  {l : Link}

def Sound (libraries : List Library) (owner : ClassName) (links : List Link) : Prop :=
  ∀ l ∈ links, ∃ c, Loads libraries l.2 c ∧ l.1.refuse? owner c = none

inductive Fails (libraries : List Library) : List ClassName → ClassName → LinkError → Prop
  | circular {pending : List ClassName} {n : ClassName} (hp : n ∈ pending) :
      Fails libraries pending n (.malformed n .circular)
  | undefined {pending : List ClassName} {n : ClassName} {e : LinkError} (hp : n ∉ pending)
      (hd : define libraries n = .error e) : Fails libraries pending n e
  | inLink {pending : List ClassName} {n : ClassName} {d : Definition} {before rest : List Link}
      {l : Link} {e : LinkError} (hp : n ∉ pending) (hd : define libraries n = .ok d)
      (hl : d.links = before ++ l :: rest) (hb : Sound libraries n before)
      (h : Fails libraries (n :: pending) l.2 e) : Fails libraries pending n e
  | refused {pending : List ClassName} {n : ClassName} {d : Definition} {before rest : List Link}
      {l : Link} {e : LinkError} {c : Class} (hp : n ∉ pending) (hd : define libraries n = .ok d)
      (hl : d.links = before ++ l :: rest) (hb : Sound libraries n before)
      (hc : Loads libraries l.2 c) (hr : l.1.refuse? n c = some e) : Fails libraries pending n e

inductive Absent (libraries : List Library) : ClassName → Prop
  | unprovided {n : ClassName} (ha : n.isArray = false) (hp : n.isPrimitive = false)
      (hd : classData? libraries n = none) : Absent libraries n
  | arrayOf {n m : ClassName} {t : FieldType} (ht : FieldType.parse n.text = .ok (.array t))
      (hm : t.className? = some m) (h : Absent libraries m) : Absent libraries n

theorem loads_of_load (h : Closed libraries table) (hc : (load libraries pending n table).1 = .ok c) :
    Loads libraries n c :=
  loads_of_get? ((load_extends libraries pending n table).closed h) (get?_of_load (Prod.ext hc rfl))

theorem Loads.eq_of_get? (h : Loads libraries n c) (hclosed : Closed libraries table) {k : Class}
    (hk : table.get? n = some k) : k = c := by
  have hload := h table hclosed
  rw [load_of_get? hk] at hload
  exact Except.ok.inj hload

-- The first link that fails comes after links that do not.
theorem fails_of_loadLinks
    (heach : ∀ l ∈ links, ∀ table, Closed libraries table →
      (load libraries pending l.2 table).1 = .error e → Fails libraries pending l.2 e)
    (h : Closed libraries table)
    (he : (loadLinks libraries pending owner links table).1 = .error e) :
    ∃ before l rest, links = before ++ l :: rest ∧ Sound libraries owner before ∧
      (Fails libraries pending l.2 e ∨
        ∃ c, Loads libraries l.2 c ∧ l.1.refuse? owner c = some e) := by
  induction links generalizing table with
  | nil =>
    rw [loadLinks] at he
    cases he
  | cons l rest ih =>
    obtain ⟨role, k⟩ := l
    obtain ⟨hfirst, hrest⟩ := List.forall_mem_cons.1 heach
    rw [fst_loadLinks_cons] at he
    cases hk : (load libraries pending k table).1 with
    | error e' =>
      rw [hk] at he
      cases he
      exact ⟨[], (role, k), rest, rfl, List.forall_mem_nil _, .inl (hfirst table h hk)⟩
    | ok c =>
      have hc := loads_of_load h hk
      simp only [hk] at he
      cases hr : role.refuse? owner c with
      | some e' =>
        rw [hr] at he
        cases he
        exact ⟨[], (role, k), rest, rfl, List.forall_mem_nil _, .inr ⟨c, hc, hr⟩⟩
      | none =>
        simp only [hr] at he
        cases hlinks : (loadLinks libraries pending owner rest
          (load libraries pending k table).2).1 with
        | ok cs =>
          rw [hlinks] at he
          cases he
        | error e' =>
          rw [hlinks] at he
          cases he
          obtain ⟨before, l, rest, rfl, hb, hl⟩ := ih hrest ((load_extends ..).closed h) hlinks
          exact ⟨(role, k) :: before, l, rest, rfl, List.forall_mem_cons.2 ⟨⟨c, hc, hr⟩, hb⟩, hl⟩

theorem fails_of_load (pending : List ClassName) (n : ClassName) (h : Closed libraries table)
    (he : (load libraries pending n table).1 = .error e) : Fails libraries pending n e := by
  refine load_induction libraries (P := fun pending n => ∀ table, Closed libraries table →
    (load libraries pending n table).1 = .error e → Fails libraries pending n e)
    (fun pending n ih table h he => ?_) pending n table h he
  cases hn : table.get? n with
  | some c =>
    rw [load_of_get? hn] at he
    cases he
  | none =>
    by_cases hp : n ∈ pending
    · rw [load, hn] at he
      simp only [dif_pos hp] at he
      cases he
      exact .circular hp
    · cases hd : define libraries n with
      | error e' =>
        rw [load_of_error hn hp hd] at he
        cases he
        exact .undefined hp hd
      | ok d =>
        rw [load_of_define hn hp hd] at he
        rcases hl : loadLinks libraries (n :: pending) n d.links table with ⟨e' | cs, table'⟩
        · rw [hl] at he
          cases he
          obtain ⟨before, l, rest, hlinks, hb, hf | ⟨c, hc, hr⟩⟩ :=
            fails_of_loadLinks (ih d hp hd) h (congrArg Prod.fst hl)
          · exact .inLink hp hd hlinks hb hf
          · exact .refused hp hd hlinks hb hc hr
        · rw [hl] at he
          cases he

theorem Links.exists_of_link {cs : List Class} (h : Links table owner links cs) (hl : l ∈ links) :
    ∃ c ∈ cs, table.get? l.2 = some c ∧ l.1.refuse? owner c = none := by
  induction h with
  | nil => cases hl
  | @cons _ c _ cs hc _ ih =>
    rcases List.mem_cons.1 hl with rfl | hl
    · exact ⟨c, List.mem_cons_self, hc⟩
    · obtain ⟨k, hk, h⟩ := ih hl
      exact ⟨k, List.mem_cons_of_mem c hk, h⟩

namespace Fails

-- What is in a table is made of smaller things, so the names on the way to it are none of them.
theorem get?_ne_some (hf : Fails libraries pending n e) (h : Closed libraries table)
    (hp : ∀ p ∈ pending, ∀ k, table.get? p = some k → sizeOf c < sizeOf k) :
    table.get? n ≠ some c := by
  induction hf generalizing c with
  | circular hn => exact fun hc => Nat.lt_irrefl _ (hp _ hn c hc)
  | undefined _ hd =>
    intro hc
    obtain ⟨d, cs, hd', -⟩ := h _ c hc
    cases hd.symm.trans hd'
  | inLink _ hd hl _ _ ih =>
    intro hc
    obtain ⟨d, cs, hd', rfl, hcs⟩ := h _ c hc
    cases hd.symm.trans hd'
    obtain ⟨k, hk, hget, -⟩ := hcs.exists_of_link (hl ▸ List.mem_append_right _ List.mem_cons_self)
    have hlt := Class.sizeOf_lt_of_mem_linked (mem_linked_build hd hcs hk)
    refine ih (List.forall_mem_cons.2 ⟨fun k' hk' => ?_, fun p hm k' hk' => ?_⟩) hget
    · cases hc.symm.trans hk'
      exact hlt
    · exact Nat.lt_trans hlt (hp p hm k' hk')
  | refused _ hd hl _ hload hr =>
    intro hc
    obtain ⟨d, cs, hd', rfl, hcs⟩ := h _ c hc
    cases hd.symm.trans hd'
    obtain ⟨k, -, hget, hnone⟩ := hcs.exists_of_link (hl ▸ List.mem_append_right _ List.mem_cons_self)
    rw [hload.eq_of_get? h hget] at hnone
    cases hr.symm.trans hnone

theorem get?_eq_none (hf : Fails libraries pending n e) (h : Closed libraries table)
    (hp : ∀ p ∈ pending, table.get? p = none) : table.get? n = none := by
  cases hc : table.get? n with
  | none => rfl
  | some c => exact absurd hc (hf.get?_ne_some h fun p hm k hk => nomatch (hp p hm).symm.trans hk)

end Fails

def Barred (libraries : List Library) (pending : List ClassName) : Prop :=
  ∀ p ∈ pending, ∀ table, Closed libraries table → table.get? p = none

theorem Loads.load (h : Loads libraries n c) (hp : Barred libraries pending)
    (hclosed : Closed libraries table) : (load libraries pending n table).1 = .ok c := by
  obtain ⟨known, hknown, hget⟩ := h.exists_get?
  obtain ⟨k, hk⟩ := load_known hknown hget
    (fun p hm k hk => nomatch (hp p hm known hknown).symm.trans hk) hclosed
  rw [hk, eq_of_load hknown hget hclosed hk]

theorem Sound.fst_loadLinks (hb : Sound libraries owner before) (hp : Barred libraries pending)
    (h : Closed libraries table)
    (hl : ∀ table, Closed libraries table →
      (loadLinks libraries pending owner links table).1 = .error e) :
    (loadLinks libraries pending owner (before ++ links) table).1 = .error e := by
  induction before generalizing table with
  | nil => exact hl table h
  | cons b before ih =>
    obtain ⟨role, k⟩ := b
    obtain ⟨⟨c, hc, hr⟩, hb⟩ := List.forall_mem_cons.1 hb
    rw [List.cons_append, fst_loadLinks_cons, hc.load hp h]
    dsimp only at hr ⊢
    rw [hr]
    dsimp only
    rw [ih hb ((load_extends ..).closed h)]
    rfl

theorem fst_load_of_links (hn : table.get? n = none) (hp : n ∉ pending) (hd : define libraries n = .ok d)
    (hl : (loadLinks libraries (n :: pending) n d.links table).1 = .error e) :
    (load libraries pending n table).1 = .error e := by
  rw [load_of_define hn hp hd]
  rcases hr : loadLinks libraries (n :: pending) n d.links table with ⟨e' | cs, t⟩
  all_goals
    rw [hr] at hl
    cases hl
  rfl

namespace Fails

theorem barred (hf : Fails libraries pending n e) (hp : Barred libraries pending) :
    Barred libraries (n :: pending) :=
  List.forall_mem_cons.2 ⟨fun table h => hf.get?_eq_none h fun p hm => hp p hm table h, hp⟩

-- A name that fails is in no table, so it does no harm that it is pending while its links are loaded.
theorem fst_load (hf : Fails libraries pending n e) (hp : Barred libraries pending)
    (h : Closed libraries table) : (load libraries pending n table).1 = .error e := by
  have hnone := (List.forall_mem_cons.1 (hf.barred hp)).1 table h
  induction hf generalizing table with
  | circular hn =>
    rw [load, hnone]
    simp only [dif_pos hn]
  | undefined hn hd => rw [load_of_error hnone hn hd]
  | inLink hn hd hl hb hf ih =>
    have hbarred := (inLink hn hd hl hb hf).barred hp
    refine fst_load_of_links hnone hn hd (hl ▸ hb.fst_loadLinks hbarred h fun t ht => ?_)
    rw [fst_loadLinks_cons, ih hbarred ht ((List.forall_mem_cons.1 (hf.barred hbarred)).1 t ht)]
  | refused hn hd hl hb hc hr =>
    have hbarred := (refused hn hd hl hb hc hr).barred hp
    refine fst_load_of_links hnone hn hd (hl ▸ hb.fst_loadLinks hbarred h fun t ht => ?_)
    rw [fst_loadLinks_cons, hc.load hbarred ht]
    dsimp only
    rw [hr]

theorem unique {e' : LinkError} (hf : Fails libraries [] n e) (hf' : Fails libraries [] n e') :
    e = e' := by
  have he := hf.fst_load nofun (closed_nil libraries)
  rw [hf'.fst_load nofun (closed_nil libraries)] at he
  exact (Except.error.inj he).symm

end Fails

theorem define_of_unprovided (ha : n.isArray = false) (hp : n.isPrimitive = false)
    (hd : classData? libraries n = none) : define libraries n = .error (.classNotFound n) := by
  rw [ClassName.isPrimitive, Option.isSome_eq_false_iff, Option.isNone_iff_eq_none] at hp
  simp [define, ha, hp, hd]

theorem define_eq_notFound (h : define libraries n = .error (.classNotFound m)) :
    n = m ∧ Absent libraries n := by
  simp only [define] at h
  split at h
  · simp only [defineArray] at h
    repeat' split at h
    all_goals cases h
  · rename_i ha
    split at h
    · cases h
    · rename_i hb
      split at h
      · rename_i hd
        cases h
        exact ⟨rfl, .unprovided (by simpa using ha) (by simp [ClassName.isPrimitive, hb]) hd⟩
      · simp only [defineRegular] at h
        repeat' split at h
        all_goals cases h

theorem Fails.absent (h : Fails libraries pending n (.classNotFound m)) :
    ReflTransGen (Declares libraries) n m ∧ Absent libraries m := by
  generalize he : LinkError.classNotFound m = e at h
  induction h with
  | circular => cases he
  | undefined _ hd =>
    subst he
    obtain ⟨rfl, ha⟩ := define_eq_notFound hd
    exact ⟨.refl, ha⟩
  | inLink _ hd hl _ _ ih =>
    obtain ⟨hr, ha⟩ := ih he
    exact ⟨.head (mem_declared_of_mem_links hd (hl ▸ List.mem_append_right _ List.mem_cons_self)) hr, ha⟩
  | @refused _ _ _ _ _ l _ c _ _ _ _ _ hr =>
    subst he
    obtain ⟨role, k⟩ := l
    cases role <;> simp [Role.refuse?] at hr

-- The component of an array is the first of its links.
theorem Absent.fails (h : Absent libraries n) (hp : ∀ p ∈ pending, rank n < rank p) :
    ∃ m, Fails libraries pending n (.classNotFound m) := by
  have hn : n ∉ pending := fun hm => Nat.lt_irrefl _ (hp n hm)
  induction h generalizing pending with
  | @unprovided n ha hprim hd => exact ⟨n, .undefined hn (define_of_unprovided ha hprim hd)⟩
  | @arrayOf n m t ht hm _ ih =>
    have ha := isArray_of_parse ht
    have hd : define libraries n = .ok
        ⟨(.component, m) :: arraySupers, fun cs => array n t cs.head? cs.tail⟩ := by
      simp [define, ha, defineArray, ht, hm]
    have hlt : rank m < rank n := rank_component ha ht hm
    have hbelow : ∀ p ∈ n :: pending, rank m < rank p :=
      List.forall_mem_cons.2 ⟨hlt, fun p hm => Nat.lt_trans hlt (hp p hm)⟩
    obtain ⟨k, hk⟩ := ih hbelow fun hm => Nat.lt_irrefl _ (hbelow _ hm)
    exact ⟨k, .inLink hn hd (List.nil_append _).symm (List.forall_mem_nil _) hk⟩

end BytecodeMachine.ClassTable
