import BytecodeMachine.Proofs.Loading.Assignability

namespace BytecodeMachine

open Relation

namespace Class

variable {c d i j k s : Class} {n : MemberName} {t : MethodType} {m : Method}

def Extends (c s : Class) : Prop := c.superclass = some s

def Implements (c i : Class) : Prop := i ∈ c.interfaces

def Declares (c : Class) (n : MemberName) (t : MethodType) (m : Method) : Prop :=
  ∃ above below, c.methods = above ++ m :: below ∧ m.name = n ∧ m.type = t ∧
    ∀ k ∈ above, ¬(k.name = n ∧ k.type = t)

def Lacks (c : Class) (n : MemberName) (t : MethodType) : Prop :=
  ∀ m ∈ c.methods, ¬(m.name = n ∧ m.type = t)

structure Rooted (c : Class) : Prop where
  root : c.superclass = none ∨ ∃ o, ReflTransGen Extends c o ∧ o.name = .object
  interface : ∀ k, ReflTransGen Under c k → ∀ i ∈ k.interfaces, ∀ s, i.superclass = some s →
    s.name = .object

theorem declaredMethod?_eq_some_iff : c.declaredMethod? n t = some m ↔ c.Declares n t m := by
  simp only [declaredMethod?, List.find?_eq_some_iff_append, Declares, Bool.and_eq_true,
    decide_eq_true_eq, Bool.not_eq_true', Bool.and_eq_false_imp, decide_eq_false_iff_not, not_and]
  constructor
  · rintro ⟨⟨hn, ht⟩, above, below, hm, habove⟩
    exact ⟨above, below, hm, hn, ht, habove⟩
  · rintro ⟨above, below, hm, hn, ht, habove⟩
    exact ⟨⟨hn, ht⟩, above, below, hm, habove⟩

theorem declaredMethod?_eq_none_iff : c.declaredMethod? n t = none ↔ c.Lacks n t := by
  simp [declaredMethod?, Lacks]

theorem under_iff : Under c s ↔ Extends c s ∨ Implements c s := by
  simp [Under, above, Extends, Implements]

theorem under_of_superclass (h : c.superclass = some s) : Under c s :=
  mem_above_of_superclass h true

theorem under_of_implements (h : Implements c i) : Under c i := List.mem_append_right _ h

theorem under_of_mem_chain (h : k ∈ c.chain) : ReflTransGen Under c k :=
  forall_chain_of_above (fun _ hj _ hs => hj.tail hs) c .refl k h

theorem chain_of_mem_chain (h : k ∈ c.chain) : ∃ below, c.chain = below ++ k.chain := by
  induction c using chain_induction with
  | root c hc =>
    rw [chain_of_root hc] at h
    cases List.mem_singleton.1 h
    exact ⟨[], rfl⟩
  | step c s hs ih =>
    rw [chain_of_superclass hs] at h ⊢
    rcases List.mem_cons.1 h with rfl | h
    · exact ⟨[], (chain_of_superclass hs).symm⟩
    · obtain ⟨below, hb⟩ := ih h
      exact ⟨c :: below, congrArg (c :: ·) hb⟩

theorem exists_chain_of_extends (h : ReflTransGen Extends c k) : ∃ below, c.chain = below ++ k.chain ∧
    ∀ j ∈ below, ReflTransGen Extends c j ∧ TransGen Extends j k := by
  induction h using ReflTransGen.head_induction_on with
  | refl => exact ⟨[], rfl, nofun⟩
  | @head c s hs hk ih =>
    obtain ⟨below, hchain, hbelow⟩ := ih
    refine ⟨c :: below, by rw [chain_of_superclass hs, hchain, List.cons_append], ?_⟩
    rintro j (_ | ⟨_, hj⟩)
    · exact ⟨.refl, .head' hs hk⟩
    · exact ⟨.head hs (hbelow j hj).1, (hbelow j hj).2⟩

theorem mem_chain_iff : k ∈ c.chain ↔ ReflTransGen Extends c k := by
  constructor
  · exact forall_chain (P := ReflTransGen Extends c) (fun _ hj _ hs => hj.tail hs) c .refl k
  · intro h
    obtain ⟨below, hchain, -⟩ := exists_chain_of_extends h
    rw [hchain]
    exact List.mem_append_right _ k.mem_chain_self

theorem not_mem_tail_chain (c : Class) : c ∉ c.chain.tail := by
  intro hc
  obtain ⟨j, hj, hs⟩ := c.exists_of_mem_tail_chain c hc
  have hle := sizeOf_le_of_mem_chain hj
  have hlt := sizeOf_lt_of_mem_linked (mem_linked_of_above (mem_above_of_superclass hs true))
  omega

theorem interfaceOrder_eq (c : Class) :
    c.interfaceOrder = (c.interfaces.flatMap fun i => i :: i.interfaceOrder) ++
      c.superclass.toList.flatMap interfaceOrder := by
  have list (cs : List Class) :
      interfaceOrder.ofList cs = cs.flatMap fun i => i :: i.interfaceOrder := by
    induction cs with
    | nil => rfl
    | cons d ds ih => rw [interfaceOrder.ofList, ih, List.flatMap_cons]
  obtain ⟨_, s, _, _, _, _, _, _, _, _⟩ := c
  cases s <;> simp [interfaceOrder, interfaceOrder.ofOption, list]

theorem interfaceOrder_subset_of_superclass (h : c.superclass = some s) :
    s.interfaceOrder ⊆ c.interfaceOrder := by
  rw [interfaceOrder_eq c, h]
  simp

theorem cons_interfaceOrder_subset (h : Implements c i) :
    i :: i.interfaceOrder ⊆ c.interfaceOrder := by
  intro k hk
  rw [interfaceOrder_eq]
  exact List.mem_append_left _ (List.mem_flatMap.2 ⟨i, h, hk⟩)

theorem mem_interfaceOrder_of_transGen (h : TransGen Implements c i) : i ∈ c.interfaceOrder := by
  induction h using TransGen.head_induction_on with
  | single hi => exact cons_interfaceOrder_subset hi List.mem_cons_self
  | head hj _ ih => exact cons_interfaceOrder_subset hj (List.mem_cons_of_mem _ ih)

theorem interfaceOrder_subset_of_mem_chain (h : k ∈ c.chain) :
    k.interfaceOrder ⊆ c.interfaceOrder := by
  refine forall_chain (P := fun k => k.interfaceOrder ⊆ c.interfaceOrder) (fun j hj s hs => ?_) c
    (List.Subset.refl _) k h
  exact List.Subset.trans (interfaceOrder_subset_of_superclass hs) hj

theorem under_of_mem_interfaceOrder (h : i ∈ c.interfaceOrder) : ReflTransGen Under c i :=
  forall_interfaceOrder (P := ReflTransGen Under c) (fun _ hj _ hs => hj.tail hs) c .refl i h

theorem exists_under_of_lookupMethod? (h : c.lookupMethod? n t = some m) :
    ∃ k, ReflTransGen Under c k ∧ k.declaredMethod? n t = some m := by
  rw [lookupMethod?_eq] at h
  obtain ⟨k, hk, hm⟩ := List.exists_of_findSome?_eq_some h
  rcases List.mem_append.1 hk with hk | hk
  · exact ⟨k, under_of_mem_chain hk, hm⟩
  · exact ⟨k, under_of_mem_interfaceOrder hk, hm⟩

theorem lookupMethod?_of_chain {below above : List Class} (hc : c.chain = below ++ k :: above)
    (hb : ∀ j ∈ below, j.declaredMethod? n t = none) (hk : k.declaredMethod? n t = some m) :
    c.lookupMethod? n t = some m := by
  rw [lookupMethod?_eq, hc, List.append_assoc, List.findSome?_append,
    List.findSome?_eq_none_iff.2 hb, List.cons_append, List.findSome?_cons, hk]
  rfl

end Class

namespace ClassTable

variable {libraries : List Library} {table : ClassTable} {c d k s : Class} {n : MemberName}
  {t : MethodType} {m : Method}

section Rooted

variable (h : Closed libraries table) (hc : table.get? c.name = some c) (hr : c.Rooted)

include h hc hr

theorem Closed.exists_object (hs : Class.Under c s) : ∃ o ∈ c.chain, o.name = .object := by
  rcases hr.root with hnone | hroot
  · refine ⟨c, c.mem_chain_self, ?_⟩
    generalize c.name = n at hc
    cases h.record hc with
    | array => cases hnone
    | primitive => cases hs
    | regular _ _ _ _ _ ho => exact (h.name hc).trans (ho hnone)
  · obtain ⟨o, ho, hname⟩ := hroot
    exact ⟨o, Class.mem_chain_iff.2 ho, hname⟩

theorem Closed.superclass_of_interface (hk : ReflTransGen Class.Under c k)
    (hi : Class.Implements k d) (hs : d.superclass = some s) : s ∈ c.chain := by
  have hd := hk.tail (Class.under_of_implements hi)
  obtain ⟨j, hj, -⟩ := TransGen.head'_iff.1 (TransGen.tail' hk (Class.under_of_implements hi))
  obtain ⟨o, ho, hname⟩ := h.exists_object hc hr hj
  have hoget := (h.chain hc o ho).1
  have hsget := h.above (h.registered hc hd) (Class.under_of_superclass hs)
  rw [hr.interface k hk d hi s hs, ← hname, hoget] at hsget
  cases hsget
  exact ho

theorem Closed.exists_implements (hk : ReflTransGen Class.Under c k) :
    ∃ j ∈ c.chain, ReflTransGen Class.Implements j k := by
  induction hk with
  | refl => exact ⟨c, c.mem_chain_self, .refl⟩
  | @tail k s hk hs ih =>
    obtain ⟨j, hj, hjk⟩ := ih
    rcases List.mem_append.1 hs with hs | hs
    · have hs := Option.mem_toList.1 hs
      refine ⟨s, ?_, .refl⟩
      rcases ReflTransGen.cases_tail hjk with rfl | ⟨i, hji, hik⟩
      · exact Class.mem_chain_of_superclass hj hs
      · have hi := (Class.under_of_mem_chain hj).trans (hji.lift id fun _ _ => Class.under_of_implements)
        exact h.superclass_of_interface hc hr hi hik hs
    · exact ⟨j, hj, hjk.tail hs⟩

theorem Closed.lookupMethod?_eq_none_iff : c.lookupMethod? n t = none ↔
    ∀ k, ReflTransGen Class.Under c k → k.declaredMethod? n t = none := by
  rw [Class.lookupMethod?_eq, List.findSome?_eq_none_iff]
  constructor
  · intro hnone k hk
    obtain ⟨j, hj, hjk⟩ := h.exists_implements hc hr hk
    refine hnone k (List.mem_append.2 ?_)
    rcases reflTransGen_iff_eq_or_transGen.1 hjk with rfl | hjk
    · exact .inl hj
    · exact .inr (Class.interfaceOrder_subset_of_mem_chain hj
        (Class.mem_interfaceOrder_of_transGen hjk))
  · intro hnone k hk
    rcases List.mem_append.1 hk with hk | hk
    · exact hnone k (Class.under_of_mem_chain hk)
    · exact hnone k (Class.under_of_mem_interfaceOrder hk)

theorem Closed.lookupMethod?_of_interface (hnone : ∀ j ∈ c.chain, j.declaredMethod? n t = none)
    (hm : c.lookupMethod? n t = some m) : ∃ j ∈ c.chain, ∃ i, TransGen Class.Implements j i ∧
      i.declaredMethod? n t = some m := by
  obtain ⟨i, hi, hmi⟩ := Class.exists_under_of_lookupMethod? hm
  obtain ⟨j, hj, hji⟩ := h.exists_implements hc hr hi
  refine ⟨j, hj, i, ?_, hmi⟩
  rcases reflTransGen_iff_eq_or_transGen.1 hji with rfl | hji
  · cases (hnone i hj).symm.trans hmi
  · exact hji

end Rooted

section Assignable

variable (h : Closed libraries table) (hc : table.get? c.name = some c)
  (hd : table.get? d.name = some d)

include h hc hd

theorem Closed.under_of_declaresAbove (hcd : DeclaresAbove libraries c.name d.name) :
    Class.Under c d := by
  obtain ⟨k, hk, hget⟩ := h.exists_of_mem_declaredAbove hc hcd
  cases hd.symm.trans hget
  exact hk

theorem Closed.under_of_arrays (hca : c.isArray = true) (hda : d.isArray = true)
    (hs : Class.Under c s) : Class.Under d s := by
  have hname : s.name ∈ (c.above true).map (·.name) := List.mem_map_of_mem hs
  rw [h.names_above hc, declaredAbove_array ((h.isArray_eq hc).symm.trans hca)] at hname
  refine h.under_of_declaresAbove hd (h.above hc hs) ?_
  rwa [DeclaresAbove, declaredAbove_array ((h.isArray_eq hd).symm.trans hda)]

theorem Closed.under_of_declares (hdc : d.isAssignable c = true) (hk : ReflTransGen Class.Under c k)
    (hm : k.declaredMethod? n t = some m) : ReflTransGen Class.Under d k := by
  cases hda : d.isArray with
  | false => exact (h.under_of_isAssignable hd hc hda hdc).trans hk
  | true =>
    cases hca : c.isArray with
    | false =>
      rw [Class.isAssignable_iff_isArraySupertype hda hca] at hdc
      refine .head (h.under_of_declaresAbove hd hc ?_) hk
      rw [DeclaresAbove, declaredAbove_array ((h.isArray_eq hd).symm.trans hda)]
      simpa [Class.isArraySupertype, or_assoc] using hdc
    | true =>
      rcases ReflTransGen.cases_head hk with rfl | ⟨s, hs, hk⟩
      · simp [Class.declaredMethod?, (h.methods hc).1 hca] at hm
      · exact .head (h.under_of_arrays hc hd hca hda hs) hk

theorem Closed.lookupMethod?_of_isAssignable (hr : d.Rooted) (hdc : d.isAssignable c = true)
    (hm : c.lookupMethod? n t = some m) : ∃ m', d.lookupMethod? n t = some m' := by
  rw [← Option.ne_none_iff_exists', Ne, h.lookupMethod?_eq_none_iff hd hr]
  intro hnone
  obtain ⟨k, hk, hmk⟩ := Class.exists_under_of_lookupMethod? hm
  cases (hnone k (h.under_of_declares hc hd hdc hk hmk)).symm.trans hmk

theorem Closed.isSubclassOf_iff : d.isSubclassOf c = true ↔ c ∈ d.chain.tail := by
  simp only [Class.isSubclassOf, List.any_eq_true, decide_eq_true_eq]
  constructor
  · rintro ⟨k, hk, hname⟩
    have hget := (h.chain hd k (List.mem_of_mem_tail hk)).1
    rw [hname, hc] at hget
    cases hget
    exact hk
  · intro hmem
    exact ⟨c, hmem, rfl⟩

end Assignable

theorem lookupMethod?_of_extends (hdc : TransGen Class.Extends d c) (hk : k ∈ c.chain)
    (hmk : m ∈ k.methods) (hm : c.lookupMethod? n t = some m) :
    ∃ m', d.lookupMethod? n t = some m' ∧
      (m' = m ∨ ∃ j ∈ d.chain, TransGen Class.Extends j c ∧ j.declaredMethod? n t = some m') := by
  obtain ⟨below, hbelow, hlow⟩ := Class.exists_chain_of_extends hdc.to_reflTransGen
  have hfound : c.chain.findSome? (fun k => k.declaredMethod? n t) = some m := by
    cases hs : c.chain.findSome? fun k => k.declaredMethod? n t with
    | none =>
      obtain ⟨hn, ht, -⟩ := Class.mem_of_lookupMethod? hm
      have hlacks := Class.declaredMethod?_eq_none_iff.1 (List.findSome?_eq_none_iff.1 hs k hk)
      exact absurd ⟨hn, ht⟩ (hlacks m hmk)
    | some m' => simpa [Class.lookupMethod?, hs] using hm
  cases hb : below.findSome? fun j => j.declaredMethod? n t with
  | none =>
    refine ⟨m, ?_, .inl rfl⟩
    simp [Class.lookupMethod?, hbelow, hb, hfound]
  | some m' =>
    obtain ⟨j, hj, hmj⟩ := List.exists_of_findSome?_eq_some hb
    refine ⟨m', ?_, .inr ⟨j, Class.mem_chain_iff.2 (hlow j hj).1, (hlow j hj).2, hmj⟩⟩
    simp [Class.lookupMethod?, hbelow, hb]

theorem Closed.rooted (h : Closed libraries table) (hc : table.get? c.name = some c)
    (ha : c.isArray = false) (hp : c.name.isPrimitive = false) (ho : Orderly libraries c) :
    c.Rooted := by
  obtain ⟨o, hlast, -, hn, -⟩ := h.exists_root hc ho.extendsClass hp
  refine ⟨.inr ⟨o, Class.mem_chain_iff.1 (List.mem_of_getLast? hlast), hn⟩, fun k hk i hi => ?_⟩
  have hka := h.isArray_of_under hc ha ho hk
  have hii := h.isInterface_of_mem_interfaces (h.registered hc hk) hka hi
  exact (ho i (Class.holds_of_under (hk.tail (Class.under_of_implements hi)))).interface hii

theorem lookup_finds_nearest (libraries : List Library) (names : List ClassName)
    (hc : (after libraries names).get? c.name = some c) (hr : c.Rooted) (n : MemberName)
    (t : MethodType) :
    (∀ k m, ReflTransGen Class.Extends c k →
      (∀ j, ReflTransGen Class.Extends c j → TransGen Class.Extends j k → j.Lacks n t) →
        k.Declares n t m → c.lookupMethod? n t = some m) ∧
    ((∀ j, ReflTransGen Class.Extends c j → j.Lacks n t) → ∀ m, c.lookupMethod? n t = some m →
      ∃ j i, ReflTransGen Class.Extends c j ∧ TransGen Class.Implements j i ∧ i.Declares n t m) ∧
    (c.lookupMethod? n t = none ↔
      ∀ k, ReflTransGen (fun a b => a.Extends b ∨ a.Implements b) c k → k.Lacks n t) ∧
    ∀ m, c.lookupMethod? n t = some m →
      (∀ d, (after libraries names).get? d.name = some d → d.Rooted → d.isAssignable c = true →
        ∃ m', d.lookupMethod? n t = some m') ∧
      ∀ d k, (after libraries names).get? d.name = some d → TransGen Class.Extends d c →
        ReflTransGen Class.Extends c k → m ∈ k.methods →
          ∃ m', d.lookupMethod? n t = some m' ∧
            (m' = m ∨ ∃ j, ReflTransGen Class.Extends d j ∧ TransGen Class.Extends j c ∧
              j.Declares n t m') := by
  have h := (settled_after libraries names).closed
  simp only [← Class.declaredMethod?_eq_some_iff, ← Class.declaredMethod?_eq_none_iff,
    ← Class.under_iff, ← Class.mem_chain_iff]
  refine ⟨fun k m hk hbelow hm => ?_, fun hnone m hm => ?_, h.lookupMethod?_eq_none_iff hc hr,
    fun m hm => ⟨fun d hd hdr hdc => ?_, fun d k hd hdc hk hmk => ?_⟩⟩
  · obtain ⟨below, hchain, hlow⟩ := Class.exists_chain_of_extends (Class.mem_chain_iff.1 hk)
    rw [k.chain_eq_cons] at hchain
    refine Class.lookupMethod?_of_chain hchain (fun j hj => ?_) hm
    exact hbelow j (Class.mem_chain_iff.2 (hlow j hj).1) (hlow j hj).2
  · obtain ⟨j, hj, i, hji, hmi⟩ := h.lookupMethod?_of_interface hc hr hnone hm
    exact ⟨j, i, hj, hji, hmi⟩
  · exact h.lookupMethod?_of_isAssignable hc hd hdr hdc hm
  · exact lookupMethod?_of_extends hdc hk hmk hm

theorem lookup_finds_nearest_of_square :
    ∃ c m, (after shapes [⟨"t/Square"⟩]).get? ⟨"t/Square"⟩ = some c ∧ c.Rooted ∧
      c.lookupMethod? ⟨"equals"⟩ ⟨[CoreLibrary.any], some CoreLibrary.boolean⟩ = some m := by
  obtain ⟨c, hc⟩ : ∃ c, (after shapes [⟨"t/Square"⟩]).get? ⟨"t/Square"⟩ = some c :=
    exists_get?_after (show loads shapes ⟨"t/Square"⟩ 20 = true by decide +kernel) List.mem_cons_self
  have h := (settled_after shapes [⟨"t/Square"⟩]).closed
  have hcn := h.name hc
  have hc' : (after shapes [⟨"t/Square"⟩]).get? c.name = some c := by rwa [hcn]
  have ha : c.isArray = false := (h.isArray_eq hc).trans rfl
  have hp : c.name.isPrimitive = false := by rw [hcn]; decide
  have ho : Orderly shapes c := h.orderly_of_forall hc' (by decide +kernel)
  have hr := h.rooted hc' ha hp ho
  obtain ⟨o, hlast, -, -, hroot⟩ := h.exists_root hc' ho.extendsClass hp
  have hdeclares : ∃ m ∈ o.methods, m.name = ⟨"equals"⟩ ∧
      m.type = ⟨[CoreLibrary.any], some CoreLibrary.boolean⟩ := by
    obtain ⟨_, _, rfl⟩ := h.regular hroot (by decide) (by decide)
      (show classData? shapes .object = some CoreLibrary.object from rfl)
    exact ⟨_, List.mem_cons_of_mem _ List.mem_cons_self, rfl, rfl⟩
  obtain ⟨m, hmo, hm⟩ := hdeclares
  have ho : ReflTransGen Class.Extends c o := Class.mem_chain_iff.1 (List.mem_of_getLast? hlast)
  obtain ⟨-, -, hnone, -⟩ := lookup_finds_nearest shapes [⟨"t/Square"⟩] hc' hr ⟨"equals"⟩
    ⟨[CoreLibrary.any], some CoreLibrary.boolean⟩
  have hfound := mt hnone.1 fun hno => hno o (ho.lift id fun _ _ => .inl) m hmo hm
  obtain ⟨m, hm⟩ := Option.ne_none_iff_exists'.1 hfound
  exact ⟨c, m, hc, hr, hm⟩

end ClassTable

end BytecodeMachine
