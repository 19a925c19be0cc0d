import BytecodeMachine.Exec.Arrays
import BytecodeMachine.Proofs.Typing.Storage
import Mathlib.Data.List.Nodup

namespace BytecodeMachine

namespace ArrayStorage

variable {elements : List ObjectId} {count : Nat}

def filled (count : Nat) (elements : List ObjectId) : ArrayStorage :=
  ofRefs (elements.map some ++ List.replicate (count - elements.length) none)

theorem filled_nil (t : FieldType) (count : Nat) : filled count [] = new (.array t) count :=
  (new_of_isReference rfl count).symm

theorem filled_all (h : elements.length = count) :
    filled count elements = ofRefs (elements.map some) := by
  simp [filled, h]

theorem put_filled (o : ObjectId) (h : elements.length < count) :
    (filled count elements).put elements.length (.object o) = filled count (elements ++ [o]) := by
  obtain ⟨left, hleft⟩ : ∃ left, count - elements.length = left + 1 :=
    ⟨count - elements.length - 1, by omega⟩
  have hrest : count - (elements ++ [o]).length = left := by
    rw [List.length_append, List.length_singleton]
    omega
  have hput := put_ofRefs (elements.map some) (List.replicate left none) o
  rw [List.length_map] at hput
  rw [filled, filled, hleft, hrest, List.replicate_succ, hput, List.map_append, List.append_assoc]
  rfl

end ArrayStorage

inductive InRow {α β : Type} (T : α → List β → Prop) : List α → List β → Prop
  | nil : InRow T [] []
  | cons {a : α} {as : List α} {bs rest : List β} (h : T a bs) (hs : InRow T as rest) :
      InRow T (a :: as) (bs ++ rest)

namespace InRow

variable {α β : Type} {T T' : α → List β → Prop} {a : α} {as : List α} {bs rest : List β}

theorem append (h : InRow T as bs) (ha : T a rest) : InRow T (as ++ [a]) (bs ++ rest) := by
  induction h with
  | nil => simpa using InRow.cons ha .nil
  | cons h _ ih =>
    rw [List.append_assoc]
    exact .cons h ih

theorem mono (h : InRow T as bs) (hT : ∀ a cs, T a cs → cs ⊆ bs → T' a cs) : InRow T' as bs := by
  induction h with
  | nil => exact .nil
  | cons h _ ih =>
    refine .cons (hT _ _ h (List.subset_append_left _ _)) (ih fun a cs hcs hsub => ?_)
    exact hT a cs hcs (List.Subset.trans hsub (List.subset_append_right _ _))

theorem forall_mem {P : β → Prop} (h : InRow T as bs) (hT : ∀ a cs, T a cs → ∀ b ∈ cs, P b) :
    ∀ b ∈ bs, P b := by
  induction h with
  | nil => nofun
  | cons h _ ih => exact List.forall_mem_append.2 ⟨hT _ _ h, ih⟩

end InRow

namespace Machine

-- An array of the first size whose elements are arrays of the sizes after it, down to elements that
-- are zeros or null; and the ids of all these arrays.
def Tree (m : Machine) : List Nat → Class → ObjectId → List ObjectId → Prop
  | [], _, _, _ => False
  | [n], c, o, ids =>
      ids = [o] ∧ ∃ t, c.componentType? = some t ∧ m.heap.get? o = some (.ofStorage c (.new t n))
  | n :: size :: sizes, c, o, ids =>
      ∃ k elements below, c.component = some k ∧ elements.length = n ∧
        m.heap.get? o = some (.ofStorage c (.ofRefs (elements.map some))) ∧
        ids = o :: below ∧ InRow (Tree m (size :: sizes) k) elements below

variable {m m' m0 b : Machine} {c k : Class} {sizes : List Nat} {o e : ObjectId}
  {elements ids ids' : List ObjectId} {alone : Prop}

theorem Tree.present (h : m.Tree sizes c o ids) : ∀ p ∈ ids, ∃ x, m.heap.get? p = some x := by
  induction sizes generalizing c o ids with
  | nil => exact h.elim
  | cons n sizes ih =>
    cases sizes with
    | nil =>
      obtain ⟨rfl, t, -, ho⟩ := h
      exact List.forall_mem_singleton.2 ⟨_, ho⟩
    | cons size sizes =>
      obtain ⟨k, elements, below, -, -, ho, rfl, hrow⟩ := h
      exact List.forall_mem_cons.2 ⟨⟨_, ho⟩, hrow.forall_mem fun _ _ => ih⟩

theorem Tree.kept (h : m.Tree sizes c o ids)
    (hm : ∀ p ∈ ids, ∀ x, m.heap.get? p = some x → m'.heap.get? p = some x) :
    m'.Tree sizes c o ids := by
  induction sizes generalizing c o ids with
  | nil => exact h
  | cons n sizes ih =>
    cases sizes with
    | nil =>
      obtain ⟨rfl, t, ht, ho⟩ := h
      exact ⟨rfl, t, ht, hm o List.mem_cons_self _ ho⟩
    | cons size sizes =>
      obtain ⟨k, elements, below, hk, hn, ho, rfl, hrow⟩ := h
      obtain ⟨hroot, hbelow⟩ := List.forall_mem_cons.1 hm
      refine ⟨k, elements, below, hk, hn, hroot _ ho, rfl, hrow.mono fun e es he hes => ?_⟩
      exact ih he fun p hp => hbelow p (hes hp)

structure Gains (m0 : Machine) (alone : Prop) (ids : List ObjectId) (m m' : Machine) : Prop where
  settings : m'.settings = m.settings
  present : ∀ o x, m.heap.get? o = some x → ∃ x', m'.heap.get? o = some x'
  kept : ∀ o x, m.heap.get? o = some x → m0.heap.get? o = none ∨ alone → m'.heap.get? o = some x
  only : alone → ∀ o, m.heap.get? o = none → o ∉ ids → m'.heap.get? o = none

namespace Gains

theorem of_heap (hs : m'.settings = m.settings) (hh : m'.heap = m.heap) :
    m0.Gains alone [] m m' where
  settings := hs
  present _ x hx := ⟨x, hh ▸ hx⟩
  kept _ _ hx _ := hh ▸ hx
  only _ _ ho _ := hh ▸ ho

theorem trans {m1 m2 m3 : Machine} (h : m0.Gains alone ids m1 m2)
    (h' : m0.Gains alone ids' m2 m3) : m0.Gains alone (ids ++ ids') m1 m3 where
  settings := h'.settings.trans h.settings
  present o x hx := by
    obtain ⟨x', hx'⟩ := h.present o x hx
    exact h'.present o x' hx'
  kept o x hx ho := h'.kept o x (h.kept o x hx ho) ho
  only ha o ho hids := by
    obtain ⟨hn, hn'⟩ := not_or.1 (mt List.mem_append.2 hids)
    exact h'.only ha o (h.only ha o ho hn) hn'

theorem later {m1 m2 m3 : Machine} (h : m0.Gains alone ids m1 m2)
    (h' : m0.Gains alone [] m2 m3) : m0.Gains alone ids m1 m3 :=
  List.append_nil ids ▸ h.trans h'

theorem absent (h : m0.Gains alone ids m m') (ho : m'.heap.get? o = none) :
    m.heap.get? o = none := by
  by_contra hne
  obtain ⟨x, hx⟩ := Option.ne_none_iff_exists'.1 hne
  obtain ⟨x', hx'⟩ := h.present o x hx
  cases ho.symm.trans hx'

theorem alloc (x : Object) (bytes : Nat) :
    m0.Gains alone [(m.alloc x bytes).1] m (m.alloc x bytes).2 where
  settings := rfl
  present o y hy := ⟨y, Heap.get?_alloc_of_some x hy⟩
  kept o y hy _ := Heap.get?_alloc_of_some x hy
  only _ o ho hids := by
    have hne : o ≠ (m.heap.alloc x).1 := mt List.mem_singleton.2 hids
    change (m.heap.alloc x).2.get? o = none
    rw [Heap.get?_alloc, if_neg hne, ho]

theorem modify (h : m0.Gains alone ids b m) (ho : b.heap.get? o = none) (f : Object → Object) :
    m0.Gains alone ids b { m with heap := m.heap.modify o f } where
  settings := h.settings
  present p x hx := by
    obtain ⟨x', hx'⟩ := h.present p x hx
    rw [Heap.get?_modify, hx']
    split
    · exact ⟨f x', rfl⟩
    · exact ⟨x', rfl⟩
  kept p x hx hp := by
    have hne : o ≠ p := by
      rintro rfl
      cases ho.symm.trans hx
    rw [Heap.get?_modify, if_neg hne]
    exact h.kept p x hx hp
  only ha p hp hids := by
    rw [Heap.get?_modify, h.only ha p hp hids]
    split <;> rfl

theorem tree (h : m0.Gains alone ids' m m') (ht : m.Tree sizes c o ids)
    (hnew : ∀ p ∈ ids, m0.heap.get? p = none) : m'.Tree sizes c o ids :=
  ht.kept fun p hp x hx => h.kept p x hx (.inl (hnew p hp))

end Gains

structure Filling (m0 : Machine) (alone : Prop) (b : Machine) (c k : Class) (count : Nat)
    (sizes : List Nat) (o : ObjectId) (elements ids : List ObjectId) (m : Machine) : Prop where
  gains : m0.Gains alone (o :: ids) b m
  array : m.heap.get? o = some (.ofStorage c (.filled count elements))
  row : InRow (m.Tree sizes k) elements ids
  nodup : (o :: ids).Nodup
  fresh : ∀ p ∈ o :: ids, b.heap.get? p = none

namespace Filling

variable {count : Nat}

theorem start {t : FieldType} (hg : m0.Gains alone [o] b m) (ho : b.heap.get? o = none)
    (hx : m.heap.get? o = some (.ofStorage c (.new (.array t) count))) :
    Filling m0 alone b c k count sizes o [] [] m where
  gains := hg
  array := ArrayStorage.filled_nil t count ▸ hx
  row := .nil
  nodup := List.nodup_singleton o
  fresh := List.forall_mem_singleton.2 ho

theorem tree {size : Nat} (h : Filling m0 alone b c k count (size :: sizes) o elements ids m)
    (hk : c.component = some k) (hlen : elements.length = count) :
    m.Tree (count :: size :: sizes) c o (o :: ids) :=
  ⟨k, elements, ids, hk, hlen, ArrayStorage.filled_all hlen ▸ h.array, rfl, h.row⟩

theorem present (h : Filling m0 alone b c k count sizes o elements ids m) :
    ∀ p ∈ o :: ids, ∃ x, m.heap.get? p = some x :=
  List.forall_mem_cons.2 ⟨⟨_, h.array⟩, h.row.forall_mem fun _ _ ht => ht.present⟩

theorem put (h : Filling m0 alone b c k count sizes o elements ids m)
    (hb : ∀ p, b.heap.get? p = none → m0.heap.get? p = none) (hg : m0.Gains alone ids' m m')
    (ht : m'.Tree sizes k e ids') (hnodup : ids'.Nodup)
    (hfresh : ∀ p ∈ ids', m.heap.get? p = none) (hcount : elements.length < count) :
    Filling m0 alone b c k count sizes o (elements ++ [e]) (ids ++ ids')
      { m' with heap := m'.heap.modify o (·.setElement elements.length (.object e)) } := by
  have hnew (p : ObjectId) (hp : p ∈ o :: ids) : m0.heap.get? p = none := hb p (h.fresh p hp)
  have hapart (p : ObjectId) (hp : p ∈ o :: ids) (hp' : p ∈ ids') : False := by
    obtain ⟨x, hx⟩ := h.present p hp
    cases hx.symm.trans (hfresh p hp')
  have hput (p : ObjectId) (x : Object) (hp : p ≠ o) (hx : m'.heap.get? p = some x) :
      (m'.heap.modify o (·.setElement elements.length (.object e))).get? p = some x := by
    rw [Heap.get?_modify, if_neg hp.symm, hx]
  have harray := hg.kept o _ h.array (.inl (hnew o List.mem_cons_self))
  refine ⟨(h.gains.trans hg).modify (h.fresh o List.mem_cons_self) _, ?_, ?_, ?_, ?_⟩
  · change (m'.heap.modify o _).get? o = _
    rw [Heap.get?_modify, if_pos rfl, harray, ← ArrayStorage.put_filled e hcount]
    rfl
  · refine (h.row.mono fun a as ha has => ?_).append ?_
    · have hold (p : ObjectId) (hp : p ∈ as) : p ∈ ids := has hp
      refine (hg.tree ha fun p hp => hnew p (List.mem_cons_of_mem o (hold p hp))).kept ?_
      exact fun p hp x => hput p x fun hpo => (List.nodup_cons.1 h.nodup).1 (hpo ▸ hold p hp)
    · exact ht.kept fun p hp x => hput p x fun hpo => hapart o List.mem_cons_self (hpo ▸ hp)
  · rw [← List.cons_append]
    exact h.nodup.append hnodup fun p hp hp' => hapart p hp hp'
  · rw [← List.cons_append]
    exact List.forall_mem_append.2 ⟨h.fresh, fun p hp => h.gains.absent (hfresh p hp)⟩

end Filling

end Machine

end BytecodeMachine
