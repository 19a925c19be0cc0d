import BytecodeMachine.Proofs.Typing.FieldClasses

namespace BytecodeMachine

namespace Class

variable {P : Class → Prop} {c d s : Class} {n : ClassName}

theorem mem_enqueue {cs stack : List Class} {seen : List ClassName}
    (h : d ∈ (enqueue cs (stack, seen)).1) : d ∈ cs ∨ d ∈ stack := by
  induction cs generalizing stack seen with
  | nil => exact .inr h
  | cons c cs ih =>
    simp only [enqueue] at h
    split at h
    · exact (ih h).imp_left (List.mem_cons_of_mem c)
    · rcases ih h with h | h
      · exact .inl (List.mem_cons_of_mem c h)
      · rcases List.mem_cons.1 h with rfl | h
        · exact .inl List.mem_cons_self
        · exact .inr h

theorem exists_of_reaches {interfaces : Bool} {stack : List Class} {seen : List ClassName}
    (hP : ∀ c, P c → ∀ s ∈ c.above interfaces, P s) (hs : ∀ c ∈ stack, P c)
    (h : reaches n interfaces stack seen = true) : ∃ d, P d ∧ d.name = n := by
  induction stack, seen using reaches.induct n interfaces with
  | case1 seen =>
    rw [reaches] at h
    cases h
  | case2 seen c rest hc => exact ⟨c, hs c List.mem_cons_self, hc⟩
  | case3 seen c rest hc ih =>
    rw [reaches, if_neg hc] at h
    refine ih (fun d hd => ?_) h
    rcases mem_enqueue hd with hd | hd
    · exact hP c (hs c List.mem_cons_self) d hd
    · exact hs d (List.mem_cons_of_mem c hd)

theorem chain_subset (h : c.superclass = some s) : s.chain ⊆ c.chain := by
  obtain ⟨_, _, _, _, _, _, _, _, _, _⟩ := c
  cases h
  exact List.subset_cons_self _ _

theorem mem_chain_self (c : Class) : c ∈ c.chain := by
  obtain ⟨_, _, _, _, _, _, _, _, _, _⟩ := c
  exact List.mem_cons_self

theorem mem_fieldOrder_self (c : Class) : c ∈ c.fieldOrder := by
  obtain ⟨_, _, _, _, _, _, _, _, _, _⟩ := c
  exact List.mem_cons_self

theorem fieldOrder_subset (h : s ∈ c.above true) : s.fieldOrder ⊆ c.fieldOrder := by
  have list (cs : List Class) (hs : s ∈ cs) : s.fieldOrder ⊆ fieldOrder.ofList cs := by
    induction cs with
    | nil => cases hs
    | cons d ds ih =>
      rcases List.mem_cons.1 hs with rfl | hs
      · exact List.subset_append_left _ _
      · exact List.Subset.trans (ih hs) (List.subset_append_right _ _)
  obtain ⟨_, t, i, _, _, _, _, _, _, _⟩ := c
  refine List.Subset.trans ?_ (List.subset_cons_self _ _)
  rcases List.mem_append.1 h with h | h
  · cases Option.mem_toList.1 h
    exact List.subset_append_right _ _
  · exact List.Subset.trans (list i h) (List.subset_append_left _ _)

theorem isAssignable_eq_reaches (h : c.isArray = false) :
    c.isAssignable d = reaches d.name d.isInterface [c] [c.name] := by
  obtain ⟨_, _, _, _, _, _, sh, _, _, _⟩ := c
  cases sh with
  | array t => cases h
  | _ => rfl

theorem isAssignable_iff_isArraySupertype (hc : c.isArray = true) (hd : d.isArray = false) :
    c.isAssignable d = true ↔ isArraySupertype d.name = true := by
  obtain ⟨_, _, _, _, _, _, sh, _, _, _⟩ := c
  cases sh with
  | array t =>
    cases hsh : d.shape with
    | array u => simp [isArray, hsh] at hd
    | regular => simp [isAssignable, hsh]
    | primitive b => simp [isAssignable, hsh]
  | _ => cases hc

-- Interfaces count their slots from the first one on, as if nothing else were in an instance.
def NoInterfaceSlots (c : Class) : Prop :=
  ∀ d ∈ c.fieldOrder, d.isInterface = true → ∀ f ∈ d.fields, f.isStatic = true

end Class

namespace ClassTable

variable {libraries : List Library} {table : ClassTable} {c d : Class} {f g : Field}

theorem Closed.chain (h : Closed libraries table) (hc : table.get? c.name = some c) :
    ∀ d ∈ c.chain, table.get? d.name = some d ∧ d.layout <+: c.layout := by
  refine Class.forall_chain (fun d hd s hs => ?_) c ⟨hc, List.prefix_rfl⟩
  refine ⟨h.above hd.1 (Class.mem_above_of_superclass hs true), ?_⟩
  have hgrows := (h.placed hd.1).grows
  rw [Class.base, hs] at hgrows
  exact hgrows.trans hd.2

theorem Closed.of_isAssignable (h : Closed libraries table) (hc : table.get? c.name = some c)
    (hd : table.get? d.name = some d) (hs : c.isArray = false) (ha : c.isAssignable d = true) :
    d ∈ c.chain ∨ d.isInterface = true ∧ d ∈ c.fieldOrder := by
  rw [Class.isAssignable_eq_reaches hs] at ha
  have same {k : Class} (hk : table.get? k.name = some k ∧ k.name = d.name) : k = d := by
    have := hk.1
    rw [hk.2, hd] at this
    exact (Option.some.inj this).symm
  cases hi : d.isInterface with
  | true =>
    rw [hi] at ha
    obtain ⟨k, ⟨hk, hsub⟩, hn⟩ := Class.exists_of_reaches
      (P := fun k => table.get? k.name = some k ∧ k.fieldOrder ⊆ c.fieldOrder)
      (fun k hk s hs => ⟨h.above hk.1 hs, List.Subset.trans (Class.fieldOrder_subset hs) hk.2⟩)
      (List.forall_mem_singleton.2 ⟨hc, List.Subset.refl _⟩) ha
    exact .inr ⟨rfl, same ⟨hk, hn⟩ ▸ hsub k.mem_fieldOrder_self⟩
  | false =>
    rw [hi] at ha
    have hP (k : Class) (hk : table.get? k.name = some k ∧ k.chain ⊆ c.chain) (s : Class)
        (hs : s ∈ k.above false) : table.get? s.name = some s ∧ s.chain ⊆ c.chain := by
      have hsuper : k.superclass = some s := by simpa [Class.above] using hs
      refine ⟨h.above hk.1 (Class.mem_above_of_superclass hsuper true), ?_⟩
      exact List.Subset.trans (Class.chain_subset hsuper) hk.2
    obtain ⟨k, ⟨hk, hsub⟩, hn⟩ := Class.exists_of_reaches hP
      (List.forall_mem_singleton.2 ⟨hc, List.Subset.refl _⟩) ha
    exact .inl (same ⟨hk, hn⟩ ▸ hsub k.mem_chain_self)

theorem Closed.slot_of_chain (h : Closed libraries table) (hc : table.get? c.name = some c)
    (hd : d ∈ c.chain) (hf : f ∈ d.fields) (hn : f.isStatic = false) :
    ∃ k, f.slot = some k ∧ d.base.length ≤ k ∧ c.layout[k]? = some f.type := by
  obtain ⟨hget, hprefix⟩ := h.chain hc d hd
  obtain ⟨k, hk, hle, hl⟩ := (h.placed hget).place f hf hn
  obtain ⟨rest, hr⟩ := hprefix
  obtain ⟨hlt, -⟩ := List.getElem?_eq_some_iff.1 hl
  exact ⟨k, hk, hle, by rw [← hr, List.getElem?_append_left hlt, hl]⟩

-- The slots of a class come after all those of its superclass.
theorem Closed.slots_apart (h : Closed libraries table) (c : Class)
    (hc : table.get? c.name = some c) {d k : Class} (hd : d ∈ c.chain) (hk : k ∈ c.chain)
    (hf : f ∈ d.fields) (hg : g ∈ k.fields) (hnf : f.isStatic = false) (hng : g.isStatic = false)
    (he : f.slot = g.slot) : f = g := by
  match c with
  | ⟨n, none, i, o, a, src, sh, fs, ms, l⟩ =>
      cases List.mem_singleton.1 hd
      cases List.mem_singleton.1 hk
      exact (h.placed hc).slot f hf g hg hnf he
  | ⟨n, some s, i, o, a, src, sh, fs, ms, l⟩ =>
      have hs : table.get? s.name = some s :=
        h.above hc (Class.mem_above_of_superclass rfl true)
      have apart {x y : Field} {e : Class} (hx : x ∈ fs) (he : e ∈ s.chain) (hy : y ∈ e.fields)
          (hnx : x.isStatic = false) (hny : y.isStatic = false) : x.slot ≠ y.slot := by
        intro hxy
        obtain ⟨p, hp, hle, -⟩ := (h.placed hc).place x hx hnx
        obtain ⟨q, hq, -, hget⟩ := h.slot_of_chain hs he hy hny
        have hlt := (List.getElem?_eq_some_iff.1 hget).1
        have hpq : p = q := Option.some.inj (hp.symm.trans (hxy.trans hq))
        have hbase : Class.base ⟨n, some s, i, o, a, src, sh, fs, ms, l⟩ = s.layout := rfl
        rw [hbase] at hle
        omega
      rcases List.mem_cons.1 hd with rfl | hd
      · rcases List.mem_cons.1 hk with rfl | hk
        · exact (h.placed hc).slot f hf g hg hnf he
        · exact absurd he (apart hf hk hg hnf hng)
      · rcases List.mem_cons.1 hk with rfl | hk
        · exact absurd he.symm (apart hg hd hf hng hnf)
        · exact h.slots_apart s hs hd hk hf hg hnf hng he

theorem Closed.fields_of_array {n : ClassName} (h : Closed libraries table)
    (hd : table.get? n = some d) (hs : d.isArray = true) : d.fields = [] := by
  obtain ⟨k, cs, hk, rfl, -⟩ := h n d hd
  cases defines hk with
  | arrayOf => rfl
  | baseArray => rfl
  | primitive => cases hs
  | regular _ _ hk =>
    obtain ⟨superclass, interfaces, hb⟩ := hk.build cs
    rw [hb] at hs
    cases hs

end ClassTable

namespace CoreLibrary

variable {rest : List Library} {table : ClassTable} {c d : Class}

theorem no_fields_above_arrays :
    ∀ c ∈ classes, Class.isArraySupertype c.name = true → c.fields = [] := by
  decide +kernel

theorem has_of_isArraySupertype {n : ClassName} (h : Class.isArraySupertype n = true) : Has n := by
  simp only [Class.isArraySupertype, Bool.or_eq_true, decide_eq_true_eq] at h
  rcases h with (rfl | rfl) | rfl
  all_goals decide

theorem fields_above_array (h : ClassTable.Closed (library :: rest) table)
    (hd : table.get? d.name = some d) (hs : c.isArray = true) (ha : c.isAssignable d = true) :
    d.fields = [] := by
  cases hda : d.isArray with
  | true => exact h.fields_of_array hd hda
  | false =>
    have hn := (Class.isAssignable_iff_isArraySupertype hs hda).1 ha
    obtain ⟨e, he, hname, superclass, interfaces, hreg⟩ :=
      regular_of_has h hd (has_of_isArraySupertype hn)
    have hnone := no_fields_above_arrays e he (hname ▸ hn)
    rw [hreg]
    simp only [ClassTable.regular, hnone, ClassTable.placeFields]

end CoreLibrary

end BytecodeMachine
