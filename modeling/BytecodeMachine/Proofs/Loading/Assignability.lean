import BytecodeMachine.Proofs.Loading.Cycles
import BytecodeMachine.Proofs.Loading.Roots

namespace BytecodeMachine

open Relation

namespace Class

variable {c s k : Class}

def Under (c s : Class) : Prop := s ∈ c.above true

theorem holds_of_under (h : ReflTransGen Under c k) : ReflTransGen Holds c k :=
  h.lift id fun _ _ hs => mem_linked_of_above hs

theorem mem_chain_of_superclass (hk : k ∈ c.chain) (hs : k.superclass = some s) : s ∈ c.chain := by
  refine forall_chain (P := fun k => k.chain ⊆ c.chain) (fun j hj s hs => ?_) c
    (List.Subset.refl _) k hk ?_
  · exact List.Subset.trans (chain_subset hs) hj
  · rw [chain_of_superclass hs]
    exact List.mem_cons_of_mem k s.mem_chain_self

theorem isAssignable_arrays {d : Class} {t u : FieldType} (hc : c.shape = .array t)
    (hd : d.shape = .array u) :
    c.isAssignable d = isAssignable.byComponent c.component t d.component u := by
  obtain ⟨_, _, _, _, _, _, _, _, _, _⟩ := c
  cases hc
  simp only [isAssignable, hd]

end Class

namespace ClassTable

variable {libraries : List Library} {table : ClassTable} {n m : ClassName} {c d k s : Class}

inductive Conforms (libraries : List Library) : ClassName → ClassName → Prop
  | above {n m : ClassName} (ha : n.isArray = false)
      (h : ReflTransGen (DeclaresAbove libraries) n m) : Conforms libraries n m
  | supertype {n m : ClassName} (ha : n.isArray = true)
      (hm : m = .object ∨ m = .cloneable ∨ m = .serializable) : Conforms libraries n m
  | base {n m : ClassName} {b : BaseType} (hn : FieldType.parse n.text = .ok (.array (.base b)))
      (hm : FieldType.parse m.text = .ok (.array (.base b))) : Conforms libraries n m
  | component {n m k l : ClassName} (hn : declaredComponent? n = some k)
      (hm : declaredComponent? m = some l) (h : Conforms libraries k l) : Conforms libraries n m

-- What assignability takes for granted, and loading does not look at.
structure Orthodox (libraries : List Library) (c : Class) : Prop where
  superclass : ExtendsClass libraries c
  interface : c.isInterface = true → ∀ s, c.superclass = some s → s.name = .object

def Orderly (libraries : List Library) (c : Class) : Prop :=
  ∀ k, ReflTransGen Class.Holds c k → Orthodox libraries k

theorem Orderly.extendsClass (h : Orderly libraries c) : ∀ k ∈ c.chain, ExtendsClass libraries k := by
  intro k hk
  refine (h k (Class.holds_of_under ?_)).superclass
  exact Class.forall_chain_of_above (fun j hj s hs => hj.tail hs) c .refl k hk

theorem Orderly.component (h : Orderly libraries c) (hk : c.component = some k) :
    Orderly libraries k :=
  fun j hj => h j (hj.head (Class.mem_linked_of_component hk))

theorem Closed.isArray_of_isInterface (h : Closed libraries table) (hc : table.get? n = some c)
    (hi : c.isInterface = true) : c.isArray = false := by
  cases h.record hc with
  | @array t component =>
    simp only [Class.isInterface, ClassTable.array, Class.start] at hi
    split at hi <;> cases hi
  | primitive => rfl
  | regular => rfl

theorem Closed.isPrimitive_eq_false_of_above (h : Closed libraries table)
    (hc : table.get? n = some c) (ha : c.isArray = false) (hs : s ∈ c.above true) :
    n.isPrimitive = false := by
  cases h.record hc with
  | array => cases ha
  | primitive => cases hs
  | regular _ hp => exact hp

section Above

variable (h : Closed libraries table) (hc : table.get? c.name = some c)

include h hc

theorem Closed.registered (hk : ReflTransGen Class.Under c k) : table.get? k.name = some k :=
  h.reachable hc (Class.holds_of_under hk)

theorem Closed.declaresAbove (hk : ReflTransGen Class.Under c k) :
    ReflTransGen (DeclaresAbove libraries) c.name k.name := by
  induction hk with
  | refl => exact .refl
  | @tail j k hj hk ih =>
    refine ih.tail ?_
    rw [DeclaresAbove, ← h.names_above (h.registered hc hj)]
    exact List.mem_map_of_mem hk

theorem Closed.exists_of_declaresAbove (hm : ReflTransGen (DeclaresAbove libraries) c.name m) :
    ∃ k, table.get? m = some k ∧ ReflTransGen Class.Under c k := by
  induction hm with
  | refl => exact ⟨c, hc, .refl⟩
  | tail _ hm ih =>
    obtain ⟨j, hj, hu⟩ := ih
    obtain ⟨k, hk, hget⟩ := h.exists_of_mem_declaredAbove hj hm
    exact ⟨k, hget, hu.tail hk⟩

theorem Closed.declaresAbove_iff (hd : table.get? d.name = some d) :
    ReflTransGen (DeclaresAbove libraries) c.name d.name ↔ ReflTransGen Class.Under c d := by
  refine ⟨fun hm => ?_, h.declaresAbove hc⟩
  obtain ⟨k, hk, hu⟩ := h.exists_of_declaresAbove hc hm
  cases hd.symm.trans hk
  exact hu

theorem Closed.reaches_of_under (hd : ReflTransGen Class.Under c d) :
    Class.reaches d.name true [c] [c.name] = true := by
  refine Class.reaches_of_mem (P := fun k => table.get? k.name = some k)
    (fun k hk s hs => h.above hk hs) (fun k l hk hl he => ?_) hc fun Q hQc hQ => ?_
  · rw [he, hl] at hk
    exact (Option.some.inj hk).symm
  · induction hd with
    | refl => exact hQc
    | tail _ hs ih => exact hQ _ ih _ hs

theorem Closed.under_of_reaches (hd : table.get? d.name = some d) {interfaces : Bool}
    (hcd : Class.reaches d.name interfaces [c] [c.name] = true) : ReflTransGen Class.Under c d := by
  obtain ⟨k, hk, hname⟩ := Class.exists_of_reaches (P := ReflTransGen Class.Under c)
    (fun k hk s hs => hk.tail (Class.above_subset k _ hs)) (List.forall_mem_singleton.2 .refl) hcd
  have hget := h.registered hc hk
  rw [hname, hd] at hget
  cases hget
  exact hk

theorem Closed.under_of_isAssignable (hd : table.get? d.name = some d) (ha : c.isArray = false)
    (hcd : c.isAssignable d = true) : ReflTransGen Class.Under c d :=
  h.under_of_reaches hc hd (Class.isAssignable_eq_reaches ha ▸ hcd)

variable (ha : c.isArray = false) (ho : Orderly libraries c)

include ha ho

theorem Closed.isArray_of_under (hd : ReflTransGen Class.Under c d) : d.isArray = false := by
  induction hd with
  | refl => exact ha
  | @tail j d hj hd ih =>
    have hget := h.registered hc hj
    rcases List.mem_append.1 hd with hd | hd
    · have hs := (h.superclass hget (ho j (Class.holds_of_under hj)).superclass
        (Option.mem_toList.1 hd)).1
      simp [Class.isArray, hs]
    · have hi := h.isInterface_of_mem_interfaces hget ih hd
      exact h.isArray_of_isInterface (h.above hget (List.mem_append_right _ hd)) hi

-- Where an interface is extended from below it only by the root, whatever lies above and is no interface
-- lies on the chain of superclasses, so interfaces need not be visited on the way to it.
theorem Closed.mem_chain_of_under (hd : ReflTransGen Class.Under c d) (hi : d.isInterface = false) :
    d ∈ c.chain := by
  induction hd with
  | refl => exact c.mem_chain_self
  | @tail j d hj hd ih =>
    have hget := h.registered hc hj
    have hja := h.isArray_of_under hc ha ho hj
    have hs : j.superclass = some d := by
      rcases List.mem_append.1 hd with hd | hd
      · exact Option.mem_toList.1 hd
      · cases hi.symm.trans (h.isInterface_of_mem_interfaces hget hja hd)
    cases hji : j.isInterface with
    | false => exact Class.mem_chain_of_superclass (ih hji) hs
    | true =>
      have hn := (ho j (Class.holds_of_under hj)).interface hji d hs
      obtain ⟨s, hfirst, -⟩ := TransGen.head'_iff.1 (TransGen.tail' hj hd)
      have hp := h.isPrimitive_eq_false_of_above hc ha hfirst
      obtain ⟨o, hlast, -, -, hroot⟩ := h.exists_root hc ho.extendsClass hp
      have hdget := h.above hget hd
      rw [hn, hroot] at hdget
      cases hdget
      exact List.mem_of_getLast? hlast

theorem Closed.isAssignable_of_under (hd : ReflTransGen Class.Under c d) :
    c.isAssignable d = true := by
  rw [Class.isAssignable_eq_reaches ha]
  cases hi : d.isInterface with
  | true => exact h.reaches_of_under hc hd
  | false => exact h.reaches hc false (.inl (h.mem_chain_of_under hc ha ho hd hi))

end Above

theorem Closed.shape_of_isArray (h : Closed libraries table) (hc : table.get? n = some c)
    (ha : c.isArray = true) : ∃ t, c.shape = .array t ∧ FieldType.parse n.text = .ok (.array t) ∧
      ((∃ b, t = .base b) ∧ c.component = none ∨ (∀ b, t ≠ .base b) ∧ ∃ k, c.component = some k) := by
  cases h.record hc with
  | @array t component _ _ _ _ ht hk =>
    refine ⟨t, rfl, ht, ?_⟩
    cases hr : t.isReference with
    | false =>
      cases t with
      | base b =>
        cases hk
        exact .inl ⟨⟨b, rfl⟩, rfl⟩
      | _ => cases hr
    | true =>
      have hnamed : (FieldType.array t).Named := FieldType.named_of_read (Reader.of_all ht)
      obtain ⟨m, hm⟩ := FieldType.exists_className (show t.Named from hnamed) hr
      rw [hm] at hk
      cases hk
      refine .inr ⟨?_, _, rfl⟩
      rintro b rfl
      cases hr
  | primitive => cases ha
  | regular => cases ha

theorem Closed.component_eq_none {b : BaseType} (h : Closed libraries table)
    (hc : table.get? n = some c) (hn : FieldType.parse n.text = .ok (.array (.base b))) :
    c.component = none := by
  have hname := (h.name_component hc).trans (declaredComponent?_of_parse hn)
  exact Option.map_eq_none_iff.1 hname

section Arrays

variable (h : Closed libraries table) (hc : table.get? c.name = some c)
  (hd : table.get? d.name = some d) (hca : c.isArray = true) (hda : d.isArray = true)

include h hc hd hca hda

theorem Closed.isAssignable_arrays : c.isAssignable d = true ↔
    (∃ b, FieldType.parse c.name.text = .ok (.array (.base b)) ∧
      FieldType.parse d.name.text = .ok (.array (.base b))) ∨
    ∃ k l, c.component = some k ∧ d.component = some l ∧ k.isAssignable l = true := by
  obtain ⟨t, hcs, hcp, ⟨⟨b, rfl⟩, hck⟩ | ⟨ht, k, hck⟩⟩ := h.shape_of_isArray hc hca
  all_goals obtain ⟨u, hds, hdp, ⟨⟨b', rfl⟩, hdk⟩ | ⟨hu, l, hdk⟩⟩ := h.shape_of_isArray hd hda
  all_goals rw [Class.isAssignable_arrays hcs hds, hck, hdk, hcp, hdp]
  · have hsame : b = b' ↔ b' = b := eq_comm
    simpa [Class.isAssignable.byComponent] using hsame
  · simp [Class.isAssignable.byComponent, hu]
  · simp [Class.isAssignable.byComponent, ht]
  · simp [Class.isAssignable.byComponent, ht]

end Arrays

theorem Closed.conforms_of_isAssignable {c d : Class} (h : Closed libraries table)
    (hc : table.get? c.name = some c) (hd : table.get? d.name = some d)
    (hcd : c.isAssignable d = true) : Conforms libraries c.name d.name := by
  have hname := h.isArray_eq hc
  cases ha : c.isArray with
  | false => exact .above (hname ▸ ha) (h.declaresAbove hc (h.under_of_isAssignable hc hd ha hcd))
  | true =>
    cases hda : d.isArray with
    | false =>
      rw [Class.isAssignable_iff_isArraySupertype ha hda] at hcd
      refine .supertype (hname ▸ ha) ?_
      simpa [Class.isArraySupertype, or_assoc] using hcd
    | true =>
      rcases (h.isAssignable_arrays hc hd ha hda).1 hcd with ⟨b, hn, hm⟩ | ⟨k, l, hk, hl, hkl⟩
      · exact .base hn hm
      · have hk' := h.linked hc (Class.mem_linked_of_component hk)
        have hl' := h.linked hd (Class.mem_linked_of_component hl)
        have := Class.sizeOf_lt_of_mem_linked (Class.mem_linked_of_component hk)
        refine .component ?_ ?_ (h.conforms_of_isAssignable hk' hl' hkl)
        · rw [← h.name_component hc, hk, Option.map_some]
        · rw [← h.name_component hd, hl, Option.map_some]
termination_by sizeOf c

theorem isArray_of_declaredComponent? (hm : declaredComponent? n = some m) : n.isArray = true := by
  by_contra ha
  cases (declaredComponent?_eq_none (by simpa using ha)).symm.trans hm

theorem isArray_of_isArraySupertype (hn : Class.isArraySupertype n = true) : n.isArray = false := by
  simp only [Class.isArraySupertype, Bool.or_eq_true, decide_eq_true_eq] at hn
  rcases hn with (rfl | rfl) | rfl
  all_goals decide

theorem Closed.isAssignable_of_conforms (h : Closed libraries table)
    (hm : Conforms libraries n m) :
    ∀ c d, c.name = n → table.get? c.name = some c → d.name = m → table.get? d.name = some d →
      Orderly libraries c → c.isAssignable d = true := by
  induction hm with
  | above ha hm =>
    rintro c d rfl hc rfl hd ho
    exact h.isAssignable_of_under hc ((h.isArray_eq hc).trans ha) ho ((h.declaresAbove_iff hc hd).1 hm)
  | supertype ha hm =>
    rintro c d rfl hc rfl hd ho
    have hm : Class.isArraySupertype d.name = true := by
      simpa [Class.isArraySupertype, or_assoc] using hm
    have hda := (h.isArray_eq hd).trans (isArray_of_isArraySupertype hm)
    exact (Class.isAssignable_iff_isArraySupertype ((h.isArray_eq hc).trans ha) hda).2 hm
  | base hn hm =>
    rintro c d rfl hc rfl hd ho
    have hca := (h.isArray_eq hc).trans (isArray_of_parse hn)
    have hda := (h.isArray_eq hd).trans (isArray_of_parse hm)
    exact (h.isAssignable_arrays hc hd hca hda).2 (.inl ⟨_, hn, hm⟩)
  | component hn hm _ ih =>
    rintro c d rfl hc rfl hd ho
    obtain ⟨k, hk, rfl⟩ := Option.map_eq_some_iff.1 ((h.name_component hc).trans hn)
    obtain ⟨l, hl, rfl⟩ := Option.map_eq_some_iff.1 ((h.name_component hd).trans hm)
    have hca := (h.isArray_eq hc).trans (isArray_of_declaredComponent? hn)
    have hda := (h.isArray_eq hd).trans (isArray_of_declaredComponent? hm)
    refine (h.isAssignable_arrays hc hd hca hda).2 (.inr ⟨k, l, hk, hl, ?_⟩)
    exact ih k l rfl (h.linked hc (Class.mem_linked_of_component hk)) rfl
      (h.linked hd (Class.mem_linked_of_component hl)) (ho.component hk)

-- Nothing but the classes above every array is above one of them.
def SealedAboveArrays (libraries : List Library) : Prop :=
  ∀ n, Class.isArraySupertype n = true →
    ∀ m ∈ declaredAbove libraries n, Class.isArraySupertype m = true

theorem SealedAboveArrays.of_declaresAbove (hs : SealedAboveArrays libraries)
    (hn : Class.isArraySupertype n = true) (hm : ReflTransGen (DeclaresAbove libraries) n m) :
    Class.isArraySupertype m = true := by
  induction hm with
  | refl => exact hn
  | tail _ hm ih => exact hs _ ih _ hm

theorem Closed.isAssignable_trans_arrays {e : Class} (h : Closed libraries table)
    (hc : table.get? c.name = some c) (hd : table.get? d.name = some d)
    (he : table.get? e.name = some e) (hca : c.isArray = true) (hda : d.isArray = true)
    (hea : e.isArray = true) (hcd : c.isAssignable d = true) (hde : d.isAssignable e = true)
    (hcomponents : ∀ k l p, c.component = some k → d.component = some l → e.component = some p →
      k.isAssignable l = true → l.isAssignable p = true → k.isAssignable p = true) :
    c.isAssignable e = true := by
  refine (h.isAssignable_arrays hc he hca hea).2 ?_
  rcases (h.isAssignable_arrays hc hd hca hda).1 hcd with ⟨b, hn, hm⟩ | ⟨k, l, hk, hl, hkl⟩
  · rcases (h.isAssignable_arrays hd he hda hea).1 hde with ⟨b', hm', hp⟩ | ⟨l, _, hl, -, -⟩
    · cases hm.symm.trans hm'
      exact .inl ⟨b, hn, hp⟩
    · cases hl.symm.trans (h.component_eq_none hd hm)
  · rcases (h.isAssignable_arrays hd he hda hea).1 hde with ⟨b', hm, -⟩ | ⟨l', p, hl', hp, hlp⟩
    · cases hl.symm.trans (h.component_eq_none hd hm)
    · cases hl.symm.trans hl'
      exact .inr ⟨k, p, hk, hp, hcomponents k l p hk hl hp hkl hlp⟩

theorem Closed.isAssignable_trans {c d e : Class} (h : Closed libraries table)
    (hc : table.get? c.name = some c) (hd : table.get? d.name = some d)
    (he : table.get? e.name = some e) (ho : Orderly libraries c)
    (hs : c.isArray = true → SealedAboveArrays libraries) (hcd : c.isAssignable d = true)
    (hde : d.isAssignable e = true) : c.isAssignable e = true := by
  cases ha : c.isArray with
  | false =>
    have hu := h.under_of_isAssignable hc hd ha hcd
    have hda := h.isArray_of_under hc ha ho hu
    exact h.isAssignable_of_under hc ha ho (hu.trans (h.under_of_isAssignable hd he hda hde))
  | true =>
    cases hda : d.isArray with
    | false =>
      rw [Class.isAssignable_iff_isArraySupertype ha hda] at hcd
      have hu := h.declaresAbove hd (h.under_of_isAssignable hd he hda hde)
      have hes := (hs ha).of_declaresAbove hcd hu
      have hea := (h.isArray_eq he).trans (isArray_of_isArraySupertype hes)
      exact (Class.isAssignable_iff_isArraySupertype ha hea).2 hes
    | true =>
      cases hea : e.isArray with
      | false =>
        rw [Class.isAssignable_iff_isArraySupertype hda hea] at hde
        exact (Class.isAssignable_iff_isArraySupertype ha hea).2 hde
      | true =>
        refine h.isAssignable_trans_arrays hc hd he ha hda hea hcd hde fun k l p hk hl hp hkl hlp => ?_
        have hlt := Class.sizeOf_lt_of_mem_linked (Class.mem_linked_of_component hk)
        exact h.isAssignable_trans (h.linked hc (Class.mem_linked_of_component hk))
          (h.linked hd (Class.mem_linked_of_component hl))
          (h.linked he (Class.mem_linked_of_component hp)) (ho.component hk) (fun _ => hs ha) hkl hlp
termination_by sizeOf c

theorem Closed.orderly_of_forall (h : Closed libraries table) (hc : table.get? c.name = some c)
    (hall : ∀ l ∈ libraries, ∀ e ∈ l.classes, ∀ s ∈ e.2.superclass, s.isArray = false ∧
      s.isPrimitive = false ∧ (e.2.access.isInterface = true → s = .object)) :
    Orderly libraries c := by
  intro k hk
  have hget := h.reachable hc hk
  refine ⟨extendsClass_of_forall (fun l hl e he s hs => ?_) k, fun hi s hs => ?_⟩
  · obtain ⟨ha, hp, -⟩ := hall l hl e he s hs
    exact ⟨ha, hp⟩
  · generalize hn : k.name = n at hget
    cases h.record hget with
    | array _ _ _ ho =>
      cases hs
      exact h.name ho
    | primitive => cases hs
    | @regular d superclass _ _ _ hd hsup =>
      obtain ⟨l, hl, he⟩ := mem_classes_of_classData? hd
      have hs : superclass = some s := hs
      subst hs
      generalize hm : d.superclass = o at hsup
      cases hsup with
      | some hs' =>
        obtain ⟨-, -, hobject⟩ := hall l hl _ he _ hm
        rw [h.name hs'.1]
        exact hobject hi

end ClassTable

namespace CoreLibrary

open ClassTable

theorem sealedAboveArrays (rest : List Library) : SealedAboveArrays (library :: rest) := by
  intro n hn m hm
  obtain ⟨d, hd, rfl, hl⟩ := exists_of_has (has_of_isArraySupertype hn)
  obtain ⟨ha, hb⟩ := names_regular d hd
  have hdata : classData? (library :: rest) d.name = some d := by simp [classData?, hl]
  rw [declaredAbove_regular ha (by simp [ClassName.isPrimitive, hb]) hdata] at hm
  exact above_array_supertypes d hd hn m hm

end CoreLibrary

namespace ClassTable

theorem assignability_agrees_with_hierarchy (libraries : List Library) (names : List ClassName)
    {c : Class} (hc : (after libraries names).get? c.name = some c) :
    c.isAssignable c = true ∧
    (∀ d, (after libraries names).get? d.name = some d →
      (c.isAssignable d = true → Conforms libraries c.name d.name) ∧
      (c.isArray = false → d.isInterface = true →
        (c.isAssignable d = true ↔ ReflTransGen (DeclaresAbove libraries) c.name d.name))) ∧
    (Orderly libraries c → ∀ d, (after libraries names).get? d.name = some d →
      (c.isAssignable d = true ↔ Conforms libraries c.name d.name) ∧
      (c.isArray = false → c.isAssignable d = Class.reaches d.name true [c] [c.name]) ∧
      ((c.isArray = true → SealedAboveArrays libraries) → c.isAssignable d = true →
        ∀ e, (after libraries names).get? e.name = some e → d.isAssignable e = true →
          c.isAssignable e = true)) ∧
    SealedAboveArrays (CoreLibrary.library :: libraries) := by
  have h := (settled_after libraries names).closed
  refine ⟨c.isAssignable_self, fun d hd => ⟨h.conforms_of_isAssignable hc hd, fun ha hi => ?_⟩,
    fun ho d hd => ⟨⟨h.conforms_of_isAssignable hc hd, fun hm => ?_⟩, fun ha => ?_,
      fun hs hcd e he hde => h.isAssignable_trans hc hd he ho hs hcd hde⟩,
    CoreLibrary.sealedAboveArrays libraries⟩
  · rw [h.declaresAbove_iff hc hd]
    refine ⟨h.under_of_isAssignable hc hd ha, fun hu => ?_⟩
    rw [Class.isAssignable_eq_reaches ha, hi]
    exact h.reaches_of_under hc hu
  · exact h.isAssignable_of_conforms hm c d rfl hc rfl hd ho
  · rw [Bool.eq_iff_iff]
    exact ⟨fun hcd => h.reaches_of_under hc (h.under_of_isAssignable hc hd ha hcd),
      fun hr => h.isAssignable_of_under hc ha ho (h.under_of_reaches hc hd hr)⟩

theorem assignability_agrees_with_hierarchy_of_squares :
    ∃ c d, (after shapes [⟨"[Lt/Square;"⟩, ⟨"[Lt/Drawable;"⟩]).get? c.name = some c ∧
      c.name = ⟨"[Lt/Square;"⟩ ∧ d.name = ⟨"[Lt/Drawable;"⟩ ∧ Orderly shapes c ∧
      c.isAssignable d = true := by
  have h := (settled_after shapes [⟨"[Lt/Square;"⟩, ⟨"[Lt/Drawable;"⟩]).closed
  obtain ⟨c, hc⟩ := exists_get?_after
    (show loads shapes ⟨"[Lt/Square;"⟩ 40 = true by decide +kernel) List.mem_cons_self
  obtain ⟨d, hd⟩ := exists_get?_after
    (show loads shapes ⟨"[Lt/Drawable;"⟩ 40 = true by decide +kernel)
    (List.mem_cons_of_mem ⟨"[Lt/Square;"⟩ List.mem_cons_self)
  have hcn := h.name hc
  have hdn := h.name hd
  have ho : Orderly shapes c := h.orderly_of_forall (by rwa [hcn]) (by decide +kernel)
  refine ⟨c, d, by rwa [hcn], hcn, hdn, ho, ?_⟩
  obtain ⟨-, -, hagree, -⟩ := assignability_agrees_with_hierarchy shapes
    [⟨"[Lt/Square;"⟩, ⟨"[Lt/Drawable;"⟩] (c := c) (by rwa [hcn])
  refine (hagree ho d (by rwa [hdn])).1.2 ?_
  have hpolygon : ⟨"t/Polygon"⟩ ∈ declaredAbove shapes ⟨"t/Square"⟩ := by decide +kernel
  have hdrawable : ⟨"t/Drawable"⟩ ∈ declaredAbove shapes ⟨"t/Polygon"⟩ := by decide +kernel
  rw [hcn, hdn]
  exact .component (show declaredComponent? _ = some ⟨"t/Square"⟩ by decide +kernel)
    (show declaredComponent? _ = some ⟨"t/Drawable"⟩ by decide +kernel)
    (.above (by decide) (.tail (.single hpolygon) hdrawable))

end ClassTable

end BytecodeMachine
