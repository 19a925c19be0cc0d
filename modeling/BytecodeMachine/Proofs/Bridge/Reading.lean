import BytecodeMachine.Exec.Text

namespace BytecodeMachine

variable {m m1 m2 m3 : Machine} {o : ObjectId} {units : List UInt16}

namespace Heap

variable {h h' h'' : Heap} {x y : Object}

def Extends (h h' : Heap) : Prop := ∀ p x, h.get? p = some x → h'.get? p = some x

theorem Extends.trans (hh : h.Extends h') (hh' : h'.Extends h'') : h.Extends h'' :=
  fun p x hx => hh' p x (hh p x hx)

theorem extends_alloc (h : Heap) (x : Object) : h.Extends (h.alloc x).2 :=
  fun _ _ => get?_alloc_of_some x

theorem get?_modify_self (f : Object → Object) (ho : h.get? o = some x) :
    (h.modify o f).get? o = some (f x) := by
  rw [get?_modify, if_pos rfl, ho]
  rfl

theorem get?_modify_of_ne {p : ObjectId} (f : Object → Object) (hp : o ≠ p) :
    (h.modify o f).get? p = h.get? p := by
  rw [get?_modify, if_neg hp]

theorem Extends.modify (hh : h.Extends h') (ho : h.get? o = none) (f : Object → Object) :
    h.Extends (h'.modify o f) := by
  intro p x hp
  rw [get?_modify_of_ne, hh p x hp]
  rintro rfl
  rw [ho] at hp
  cases hp

end Heap

namespace Machine

def Backs (m : Machine) (units : List UInt16) : Option ObjectId → Prop
  | none => units = []
  | some chars => ∃ y : Object, ∃ b, m.heap.get? chars = some y ∧ y.storage = .ok b ∧
      b.chars? = some units

structure Spells (m : Machine) (o : ObjectId) (units : List UInt16) (x : Object) (k : Nat)
    (r : Option ObjectId) : Prop where
  object : m.heap.get? o = some x
  name : x.klass.name = .string
  slot : (x.klass.declaredField? .value).bind (·.slot) = some k
  field : x.field k = .ok (.ref r)
  backs : m.Backs units r

theorem unitsOf_of_spells {x : Object} {k : Nat} {r : Option ObjectId}
    (h : m.Spells o units x k r) : m.unitsOf o = .ok units := by
  simp only [unitsOf, h.object, h.name, h.slot, h.field, bind, Except.bind, ne_eq,
    not_true_eq_false, if_false, Value.asReference]
  cases r with
  | none => exact congrArg _ h.backs.symm
  | some chars =>
    obtain ⟨y, b, hy, hb, hu⟩ := h.backs
    simp only [storage?, hy, hb, hu]
    rfl

theorem exists_string (h : m.unitsOf o = .ok units) :
    ∃ x : Object, m.heap.get? o = some x ∧ x.klass.name = .string := by
  unfold unitsOf at h
  cases ho : m.heap.get? o with
  | none =>
    rw [ho] at h
    cases h
  | some x =>
    refine ⟨x, rfl, Decidable.byContradiction fun hn => ?_⟩
    simp only [ho, bind, Except.bind, ne_eq, hn, not_false_eq_true, if_true] at h
    cases h

theorem exists_spells (h : m.unitsOf o = .ok units) : ∃ x k r, m.Spells o units x k r := by
  obtain ⟨x, ho, hn⟩ := exists_string h
  simp only [unitsOf, ho, hn, bind, Except.bind, ne_eq, not_true_eq_false, if_false] at h
  cases hk : (x.klass.declaredField? .value).bind (·.slot) with
  | none => simp [hk] at h
  | some k =>
    cases hf : x.field k with
    | error e => simp [hk, hf] at h
    | ok v =>
      cases v with
      | ref r =>
        simp only [hk, hf, Value.asReference] at h
        refine ⟨x, k, r, ho, hn, hk, hf, ?_⟩
        cases r with
        | none => exact (Except.ok.inj h).symm
        | some chars =>
          simp only [storage?] at h
          cases hy : m.heap.get? chars with
          | none => simp [hy] at h
          | some y =>
            cases hb : y.storage with
            | error e => simp [hy, hb] at h
            | ok b =>
              simp only [hy, hb] at h
              split at h
              · rename_i hu
                exact ⟨y, b, hy, hb, hu.trans (congrArg _ (Except.ok.inj h))⟩
              · cases h
      | _ => simp [hk, hf, Value.asReference] at h

def IsText (x : Object) : Prop :=
  x.klass.name = .string ∨ ∃ b units, x.storage = .ok b ∧ b.chars? = some units

def KeepsText (m m' : Machine) : Prop :=
  ∀ p x, m.heap.get? p = some x → IsText x → m'.heap.get? p = some x

theorem KeepsText.trans (h : m1.KeepsText m2) (h' : m2.KeepsText m3) : m1.KeepsText m3 :=
  fun p x hp hx => h' p x (h p x hp hx) hx

theorem keepsText_modify {x : Object} {f : Object → Object} (ho : m.heap.get? o = some x)
    (hx : ¬ IsText x) (hm : m1.heap = m.heap.modify o f) : m.KeepsText m1 := by
  intro p y hp hy
  rw [hm, Heap.get?_modify_of_ne, hp]
  rintro rfl
  cases ho.symm.trans hp
  exact hx hy

theorem KeepsText.unitsOf (hk : m1.KeepsText m2) (h : m1.unitsOf o = .ok units) :
    m2.unitsOf o = .ok units := by
  obtain ⟨x, k, r, hx⟩ := exists_spells h
  refine unitsOf_of_spells ⟨hk o x hx.object (.inl hx.name), hx.name, hx.slot, hx.field, ?_⟩
  have hb := hx.backs
  cases r with
  | none => exact hb
  | some chars =>
    obtain ⟨y, b, hy, hb, hu⟩ := hb
    exact ⟨y, b, hk chars y hy (.inr ⟨b, units, hb, hu⟩), hb, hu⟩

theorem exists_unitsOf {text : String} (h : m.stringValue o = .ok text) :
    ∃ units, m.unitsOf o = .ok units ∧ text = String.ofList (Text.chars units) := by
  unfold stringValue at h
  cases hu : m.unitsOf o with
  | error e =>
    rw [hu] at h
    cases h
  | ok units =>
    rw [hu] at h
    cases h
    exact ⟨units, rfl, rfl⟩

theorem stringValue_of_unitsOf (h : m.unitsOf o = .ok units) :
    m.stringValue o = .ok (String.ofList (Text.chars units)) := by
  rw [stringValue, h]
  rfl

theorem KeepsText.stringValue {text : String} (hk : m1.KeepsText m2)
    (h : m1.stringValue o = .ok text) : m2.stringValue o = .ok text := by
  obtain ⟨units, hu, rfl⟩ := exists_unitsOf h
  exact stringValue_of_unitsOf (hk.unitsOf hu)

end Machine

end BytecodeMachine
