import BytecodeMachine.Proofs.Loading.History
import BytecodeMachine.Proofs.Typing.Dispatch

namespace BytecodeMachine

namespace Class

variable {c s k : Class}

theorem chain_of_root (h : c.superclass = none) : c.chain = [c] := by
  obtain ⟨_, _, _, _, _, _, _, _, _, _⟩ := c
  cases h
  rfl

theorem chain_of_superclass (h : c.superclass = some s) : c.chain = c :: s.chain := by
  obtain ⟨_, _, _, _, _, _, _, _, _, _⟩ := c
  cases h
  rfl

theorem chain_eq_cons (c : Class) : c.chain = c :: c.chain.tail := by
  cases c
  rfl

theorem chain_induction {P : Class → Prop} (root : ∀ c, c.superclass = none → P c)
    (step : ∀ c s, c.superclass = some s → P s → P c) (c : Class) : P c := by
  match c with
  | ⟨n, none, i, k, a, src, sh, f, m, l⟩ => exact root _ rfl
  | ⟨n, some s, i, k, a, src, sh, f, m, l⟩ => exact step _ s rfl (chain_induction root step s)

theorem exists_root (c : Class) : ∃ o, c.chain.getLast? = some o ∧ o.superclass = none := by
  induction c using chain_induction with
  | root c h => exact ⟨c, by rw [chain_of_root h]; rfl, h⟩
  | step c s h ih =>
    obtain ⟨o, ho, hnone⟩ := ih
    refine ⟨o, ?_, hnone⟩
    rw [chain_of_superclass h, List.getLast?_cons, ho]
    rfl

theorem exists_of_mem_tail_chain (c : Class) :
    ∀ k ∈ c.chain.tail, ∃ j ∈ c.chain, j.superclass = some k := by
  induction c using chain_induction with
  | root c h => simp [chain_of_root h]
  | step c s h ih =>
    intro k hk
    rw [chain_of_superclass h] at hk ⊢
    have hk : k ∈ s.chain := hk
    rw [chain_eq_cons s] at hk
    rcases List.mem_cons.1 hk with rfl | hk
    · exact ⟨c, List.mem_cons_self, h⟩
    · obtain ⟨j, hj, hs⟩ := ih k hk
      exact ⟨j, List.mem_cons_of_mem c hj, hs⟩

theorem sizeOf_le_of_mem_chain (h : k ∈ c.chain) : sizeOf k ≤ sizeOf c := by
  refine forall_chain_of_above (P := fun k => sizeOf k ≤ sizeOf c) (fun j hj s hs => ?_) c
    (Nat.le_refl _) k h
  have := sizeOf_lt_of_mem_linked (mem_linked_of_above hs)
  omega

end Class

namespace ClassTable

variable {libraries : List Library} {table : ClassTable} {n : ClassName} {c s k : Class}

-- What loading does not look at: a class of a library extends another one, no array and no primitive.
def ExtendsClass (libraries : List Library) (c : Class) : Prop :=
  c.shape = .regular → ∀ d s, classData? libraries c.name = some d → d.superclass = some s →
    s.isArray = false ∧ s.isPrimitive = false

theorem mem_classes_of_classData? {d : ClassData} (hd : classData? libraries n = some d) :
    ∃ l ∈ libraries, (n, d) ∈ l.classes := by
  obtain ⟨l, hl, hd⟩ := List.exists_of_findSome?_eq_some hd
  simp only [Library.class?, Entries.get?, Option.map_eq_some_iff] at hd
  obtain ⟨⟨m, d⟩, he, rfl⟩ := hd
  have hm : m = n := by simpa using List.find?_some he
  exact ⟨l, hl, hm ▸ List.mem_of_find?_eq_some he⟩

theorem extendsClass_of_forall
    (h : ∀ l ∈ libraries, ∀ e ∈ l.classes, ∀ s ∈ e.2.superclass,
      s.isArray = false ∧ s.isPrimitive = false) (c : Class) : ExtendsClass libraries c := by
  intro _ d s hd hs
  obtain ⟨l, hl, hmem⟩ := mem_classes_of_classData? hd
  exact h l hl _ hmem s hs

theorem Closed.shape (h : Closed libraries table) (hc : table.get? n = some c)
    (ha : n.isArray = false) (hp : n.isPrimitive = false) : c.shape = .regular := by
  cases h.record hc with
  | array ha' => cases ha.symm.trans ha'
  | primitive _ hb => simp [ClassName.isPrimitive, hb] at hp
  | regular => rfl

theorem Closed.superclass (h : Closed libraries table) (hc : table.get? n = some c)
    (he : ExtendsClass libraries c) (hs : c.superclass = some s) :
    s.shape = .regular ∧ (s.isInterface = true → c.isArray = true ∧ s.name = .object) := by
  cases h.record hc with
  | array _ _ _ ho =>
    cases hs
    exact ⟨h.shape ho (by decide) (by decide), fun _ => ⟨rfl, h.name ho⟩⟩
  | primitive => cases hs
  | @regular d superclass _ _ _ hd hsup =>
    have hs : superclass = some s := hs
    subst hs
    generalize hm : d.superclass = o at hsup
    cases hsup with
    | @some m _ hget =>
      obtain ⟨ha, hp⟩ := he rfl d m hd hm
      refine ⟨h.shape hget.1 ha hp, fun hi => ?_⟩
      rw [hget.2] at hi
      cases hi

theorem Closed.root (h : Closed libraries table) (hc : table.get? n = some c)
    (hs : c.superclass = none) : n = .object ∨ n.isPrimitive = true := by
  cases h.record hc with
  | array => cases hs
  | primitive _ hb => exact .inr (by simp [ClassName.isPrimitive, hb])
  | regular _ _ _ _ _ ho => exact .inl (ho hs)

theorem Closed.isPrimitive_eq_false (h : Closed libraries table) (hc : table.get? n = some c)
    (hs : c.shape = .regular) : n.isPrimitive = false := by
  cases h.record hc with
  | array => cases hs
  | primitive => cases hs
  | regular _ hp => exact hp

section Chain

variable (h : Closed libraries table) (hc : table.get? c.name = some c)
  (he : ∀ k ∈ c.chain, ExtendsClass libraries k)

include h hc he

theorem Closed.tail_chain : ∀ k ∈ c.chain.tail,
    k.shape = .regular ∧ (k.isInterface = true → c.isArray = true ∧ k.name = .object) := by
  intro k hk
  have regular {j k : Class} (hj : j ∈ c.chain) (hk : j.superclass = some k) :=
    h.superclass (h.chain hc j hj).1 (he j hj) hk
  obtain ⟨j, hj, hs⟩ := c.exists_of_mem_tail_chain k hk
  refine ⟨(regular hj hs).1, fun hi => ?_⟩
  obtain ⟨ha, hn⟩ := (regular hj hs).2 hi
  rw [c.chain_eq_cons] at hj
  rcases List.mem_cons.1 hj with rfl | hj
  · exact ⟨ha, hn⟩
  · obtain ⟨i, hi, hs⟩ := c.exists_of_mem_tail_chain j hj
    simp [Class.isArray, (regular hi hs).1] at ha

theorem Closed.exists_root (hp : c.name.isPrimitive = false) :
    ∃ o, c.chain.getLast? = some o ∧ o.superclass = none ∧ o.name = .object ∧
      table.get? .object = some o := by
  obtain ⟨o, hlast, hs⟩ := c.exists_root
  have hmem := List.mem_of_getLast? hlast
  have ho := (h.chain hc o hmem).1
  rcases h.root ho hs with hn | hprim
  · exact ⟨o, hlast, hs, hn, hn ▸ ho⟩
  · rw [c.chain_eq_cons] at hmem
    rcases List.mem_cons.1 hmem with rfl | hmem
    · cases hp.symm.trans hprim
    · have := h.isPrimitive_eq_false ho (h.tail_chain hc he o hmem).1
      cases this.symm.trans hprim

end Chain

theorem Closed.nodup_chain (h : Closed libraries table) (hc : table.get? c.name = some c) :
    (c.chain.map (·.name)).Nodup := by
  induction c using Class.chain_induction with
  | root c hs => simp [Class.chain_of_root hs]
  | step c s hs ih =>
    have habove := Class.mem_above_of_superclass hs true
    have hget := h.above hc habove
    rw [Class.chain_of_superclass hs, List.map_cons, List.nodup_cons]
    refine ⟨fun hmem => ?_, ih hget⟩
    obtain ⟨k, hk, hname⟩ := List.mem_map.1 hmem
    have hkc := (h.chain hget k hk).1
    rw [hname, hc] at hkc
    cases hkc
    have hle := Class.sizeOf_le_of_mem_chain hk
    have hlt := Class.sizeOf_lt_of_mem_linked (Class.mem_linked_of_above habove)
    omega

theorem Closed.isAssignable_root (h : Closed libraries table) (hc : table.get? c.name = some c)
    {o : Class} (ho : o ∈ c.chain) (hn : o.name = .object) : c.isAssignable o = true := by
  cases ha : c.isArray with
  | false =>
    rw [Class.isAssignable_eq_reaches ha]
    exact h.reaches hc _ (.inl ho)
  | true =>
    have hs := h.shape (h.chain hc o ho).1 (hn ▸ by decide) (hn ▸ by decide)
    rw [Class.isAssignable_iff_isArraySupertype ha (by simp [Class.isArray, hs]), hn]
    decide

def shapes : List Library :=
  [.ofClasses "shapes" [CoreLibrary.object, CoreLibrary.interface .cloneable,
    CoreLibrary.interface .serializable, CoreLibrary.interface ⟨"t/Drawable"⟩,
    CoreLibrary.klass ⟨"t/Polygon"⟩ .object .plain [⟨"t/Drawable"⟩] [] [],
    CoreLibrary.klass ⟨"t/Square"⟩ ⟨"t/Polygon"⟩ .plain [] [] []] []]

theorem superclasses_end_in_root (libraries : List Library) (names : List ClassName) {n : ClassName}
    {c : Class} (hc : (after libraries names).get? n = some c) (hp : n.isPrimitive = false)
    (he : ∀ k ∈ c.chain, ExtendsClass libraries k) :
    (∀ k ∈ c.chain, (after libraries names).get? k.name = some k) ∧
    (c.chain.map (·.name)).Nodup ∧
    (∃ o, c.chain.getLast? = some o ∧ o.name = .object ∧ o.superclass = none ∧
      (after libraries names).get? .object = some o ∧ c.isAssignable o = true) ∧
    ∀ k ∈ c.chain.tail, k.shape = .regular ∧
      (k.isInterface = true → c.isArray = true ∧ k.name = .object ∧
        ∃ d, classData? libraries .object = some d ∧ d.access.isInterface = true) := by
  have h := (settled_after libraries names).closed
  cases h.name hc
  obtain ⟨o, hlast, hs, hn, ho⟩ := h.exists_root hc he hp
  refine ⟨fun k hk => (h.chain hc k hk).1, h.nodup_chain hc,
    ⟨o, hlast, hn, hs, ho, h.isAssignable_root hc (List.mem_of_getLast? hlast) hn⟩, fun k hk => ?_⟩
  obtain ⟨hshape, hi⟩ := h.tail_chain hc he k hk
  refine ⟨hshape, fun hk' => ?_⟩
  obtain ⟨ha, hname⟩ := hi hk'
  refine ⟨ha, hname, ?_⟩
  have hget := (h.chain hc k (List.mem_of_mem_tail hk)).1
  rw [hname] at hget
  cases h.record hget with
  | array => cases hshape
  | primitive => cases hshape
  | regular _ _ hd => exact ⟨_, hd, hk'⟩

theorem superclasses_end_in_root_of_subclass :
    ∃ c o, (after shapes [⟨"t/Square"⟩]).get? ⟨"t/Square"⟩ = some c ∧
      c.chain.getLast? = some o ∧ o.name = .object ∧ c.isAssignable o = true := by
  obtain ⟨c, hc⟩ := exists_get?_after
    (show loads shapes ⟨"t/Square"⟩ 20 = true by decide +kernel) List.mem_cons_self
  have h := (settled_after shapes [⟨"t/Square"⟩]).closed
  obtain ⟨-, -, ⟨o, hlast, hname, -, -, ha⟩, -⟩ := superclasses_end_in_root shapes [⟨"t/Square"⟩] hc
    (by decide) fun k _ => extendsClass_of_forall (by decide +kernel) k
  exact ⟨c, o, hc, hlast, hname, ha⟩

end ClassTable

end BytecodeMachine
