import BytecodeMachine.Proofs.Bridge.RoundTrip
import BytecodeMachine.Proofs.Identities.Mirroring

namespace BytecodeMachine

variable {k : Nat} {s : Scene} {m : Machine} {T : FieldType} {g : Value} {v : NativeValue}

theorem ElementKind.eq_base_of_ofType {t : FieldType} {b : BaseType} (hb : b = .char ∨ b = .int)
    (h : ofType t = ofType (.base b)) : t = .base b := by
  cases t with
  | base b' => rcases hb with rfl | rfl <;> cases b' <;> first | rfl | cases h
  | _ => rcases hb with rfl | rfl <;> cases h

theorem ArrayStorage.kind_of_chars? {s : ArrayStorage} {units : List UInt16}
    (h : s.chars? = some units) : s.kind = .char := by
  unfold chars? at h
  split at h
  · rfl
  · cases h

theorem ArrayStorage.kind_of_ints? {s : ArrayStorage} {ns : List Int32}
    (h : s.ints? = some ns) : s.kind = .int := by
  unfold ints? at h
  split at h
  · rfl
  · cases h

theorem Object.body_of_storage {x : Object} {c : ArrayStorage} (h : x.storage = .ok c) :
    x.body = .array c := by
  unfold storage at h
  split at h
  · cases h
    assumption
  · cases h

namespace Machine

-- The value is of the type that is declared, and not only of one that is assignable to it.
def HasShape (m : Machine) (g : Value) : FieldType → Prop
  | .base b => g.fits (.base b) = true
  | .object n => ∃ o x, g = .object o ∧ m.heap.get? o = some x ∧ x.klass.name = n
  | .array c => ∃ o x, g = .object o ∧ m.heap.get? o = some x ∧ x.klass.componentType? = some c

theorem Sound.componentType? (h : m.Sound) {o : ObjectId} {x : Object} {c : ArrayStorage}
    (ho : m.heap.get? o = some x) (hc : x.storage = .ok c) {b : BaseType}
    (hb : b = .char ∨ b = .int) (hk : c.kind = .ofType (.base b)) :
    x.klass.componentType? = some (.base b) := by
  obtain ⟨t, ht, he⟩ := (h.arrays o x c ho (Object.body_of_storage hc)).kind
  rw [ht, ElementKind.eq_base_of_ofType hb (he.symm.trans hk)]

theorem Renders.hasShape (h : m.Renders T g v) (hs : m.Sound) (hm : m.Mirrored)
    (hT : T ≠ .array .string) : m.HasShape g T := by
  cases h with
  | base h => exact h
  | string h =>
    obtain ⟨units, hu, -⟩ := exists_unitsOf h
    obtain ⟨x, hx, hn⟩ := exists_string hu
    exact ⟨_, x, rfl, hx, hn⟩
  | klass h =>
    obtain ⟨x, hx, hn⟩ := hm.isMirror_of_classNameOf? h
    exact ⟨_, x, rfl, hx, hn⟩
  | box hn h =>
    obtain ⟨x, hx, hn⟩ := h.object
    exact ⟨_, x, rfl, hx, hn⟩
  | chars ho hc h =>
    exact ⟨_, _, rfl, ho, hs.componentType? ho hc (.inl rfl) (ArrayStorage.kind_of_chars? h)⟩
  | ints ho hc h =>
    exact ⟨_, _, rfl, ho, hs.componentType? ho hc (.inr rfl) (ArrayStorage.kind_of_ints? h)⟩
  | strings => exact absurd rfl hT

end Machine

def BaseType.isFull : BaseType → Bool
  | .int | .long | .float | .double => true
  | _ => false

theorem NativeValue.narrowed_eq (h : T.primitive?.all (·.isFull) = true) (v : NativeValue) :
    v.narrowed T = v := by
  unfold narrowed
  cases hb : T.primitive? with
  | none => rfl
  | some b =>
    rw [hb] at h
    cases v with
    | int n => cases b <;> first | rfl | cases h
    | _ => rfl

namespace Exec

structure Bridges (k : Nat) (t : Thread) (T : FieldType) (s : Scene) : Prop where
  returned : ∀ i v, v.suits T = true → s.machine.Affords v →
    Gives (do toNative (← ofNative (.bounded (k + 8)) v T) T) i t (fun w _ => w = v.narrowed T) s
  unnarrowed : T.primitive?.all (·.isFull) = true → ∀ v : NativeValue, v.narrowed T = v
  passed : T.isReference = true → ∀ i,
    (ofNative (.bounded (k + 8)) .null T).Gives i t (fun g _ => g = .null) s ∧
      ∀ o, (ofNative (.bounded (k + 8)) (.object o) T).Gives i t (fun g _ => g = .object o) s
  refusedHost : ∀ i v, v.suits T = false → v.passes T = false →
    (ofNative (.bounded (k + 8)) v T).Refuses i t s
  refusedGuest : ∀ i g, (g = .null → T.isReference = false) → T ≠ .array .string →
    ¬ s.machine.HasShape g T → (toNative g T).Refuses i t s
  strings : T = .array .string → ∀ i g, g ≠ .null →
    (∃ texts, s.machine.Renders T g (.strings texts) ∧
      (toNative g T).Gives i t (fun w _ => w = .strings texts) s) ∨
    (∀ v, ¬ s.machine.Renders T g v) ∧ (toNative g T).Refuses i t s

theorem bridges {t : Thread} (hs : s.machine.Serves t.id) (hm : s.machine.Mirrored)
    (hsound : s.machine.Sound) (hT : T.IsBridged) : Bridges k t T s where
  returned i v hv ha := gives_roundTrip hs hm hv ha
  unnarrowed := NativeValue.narrowed_eq
  passed hr i := by
    cases T with
    | base b => cases hr
    | _ => exact ⟨gives_pure rfl, fun o => gives_pure rfl⟩
  refusedHost i v hv hp := refuses_ofNative hT hv hp
  refusedGuest i g hg hne hshape := by
    refine refuses_toNative hs hT (fun hnull => ?_) fun v hr => hshape (hr.hasShape hsound hm hne)
    cases T with
    | base b => exact ⟨b, rfl⟩
    | _ => cases hg hnull
  strings he i g hg := by
    subst he
    by_cases h : ∃ v, s.machine.Renders (.array .string) g v
    · obtain ⟨v, hv⟩ := h
      cases hv with
      | strings ho hc h ht =>
        have hr := Machine.Renders.strings ho hc h ht
        exact .inl ⟨_, hr, gives_toNative hs hr⟩
    · exact .inr ⟨not_exists.1 h, refuses_toNative hs hT (fun hnull => absurd hnull hg)
        (not_exists.1 h)⟩

end Exec

end BytecodeMachine
