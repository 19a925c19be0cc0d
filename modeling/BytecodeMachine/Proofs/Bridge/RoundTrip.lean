import BytecodeMachine.Proofs.Bridge.Rendering

namespace BytecodeMachine

open CoreLibrary ClassTable

variable {i k : Nat} {t : Thread} {s : Scene} {m : Machine} {T : FieldType} {b : BaseType}
  {n : ClassName} {v : NativeValue}

def FieldType.primitive? : FieldType → Option BaseType
  | .base b => some b
  | .object n => n.boxed?
  | .array _ => none

namespace NativeValue

def isNumber : NativeValue → BaseType → Bool
  | .long _, .long | .float _, .float | .double _, .double => true
  | .int _, b => (FieldType.base b).kind = .int
  | _, _ => false

def suits (v : NativeValue) (T : FieldType) : Bool :=
  match v with
  | .string _ => T = .string
  | .klass _ => T = .object .klass
  | .chars _ => T = .chars
  | .ints _ => T = .array .int
  | .strings _ => T = .array .string
  | v => T.primitive?.any v.isNumber

def passes (v : NativeValue) (T : FieldType) : Bool :=
  T.isReference && match v with
    | .null | .object _ => true
    | _ => false

def narrowed (v : NativeValue) (T : FieldType) : NativeValue :=
  match T.primitive?, v with
  | some b, .int n => .int (b.cut n)
  | _, v => v

end NativeValue

def Machine.Affords (m : Machine) : NativeValue → Prop
  | .klass n => ∃ c, (load m.libraries [] n m.classes).1 = .ok c
  | .strings texts =>
      headerBytes + 8 * texts.length ≤ m.settings.memoryMax ∧ texts.length ≤ 2147483648
  | _ => True

namespace Exec

theorem gives_ofNativeBase (hv : v.isNumber b = true) :
    (ofNativeBase v b).Gives i t (fun g m => g.fits (.base b) = true ∧
      NativeValue.ofValue g = v.narrowed (.base b) ∧ m = s.machine) s := by
  cases v with
  | int n =>
    have hk : (FieldType.base b).kind = .int := by simpa [NativeValue.isNumber] using hv
    have hof : ofNativeBase (.int n) b = pure (.int (b.cut n)) := by
      cases b <;> first | rfl | cases hk
    rw [hof]
    exact gives_pure ⟨by simp [Value.fits, Value.kind, hk], rfl, rfl⟩
  | long n =>
    cases b with
    | long => exact gives_pure ⟨rfl, rfl, rfl⟩
    | _ => cases hv
  | float x =>
    cases b with
    | float => exact gives_pure ⟨rfl, rfl, rfl⟩
    | _ => cases hv
  | double x =>
    cases b with
    | double => exact gives_pure ⟨rfl, rfl, rfl⟩
    | _ => cases hv
  | _ => cases hv

theorem refuses_ofNativeBase (hv : v.isNumber b = false) :
    (ofNativeBase v b).Refuses i t s := by
  cases v with
  | int n =>
    have hk : (FieldType.base b).kind ≠ .int := by simpa [NativeValue.isNumber] using hv
    cases b with
    | long | float | double => exact refuses_crossing _ _
    | _ => exact absurd rfl hk
  | long n =>
    cases b with
    | long => cases hv
    | _ => exact refuses_crossing _ _
  | float x =>
    cases b with
    | float => cases hv
    | _ => exact refuses_crossing _ _
  | double x =>
    cases b with
    | double => cases hv
    | _ => exact refuses_crossing _ _
  | _ => exact refuses_crossing _ _

abbrev GivesRendering (x : Exec Value) (i : Nat) (t : Thread) (T : FieldType) (v : NativeValue)
    (s : Scene) : Prop :=
  x.Gives i t (fun g m => s.machine.Continues t.id m ∧ m.Renders T g v) s

theorem gives_boxed {n : ClassName} (hs : s.machine.Serves t.id) (hn : n.boxed? = some b)
    (hv : v.isNumber b = true) :
    (ofNativeReference.boxed (.bounded (k + 8)) v (.object n)).GivesRendering i t (.object n)
      (v.narrowed (.object n)) s := by
  simp only [ofNativeReference.boxed, hn]
  refine (gives_ofNativeBase hv).bind fun g s1 h1 => ?_
  obtain ⟨hfits, hof, h1⟩ := h1
  rw [← h1] at hs ⊢
  refine (gives_box (n := k + 4) hs hn hfits).bind fun o s2 h2 => gives_pure ⟨h2.1.toContinues, ?_⟩
  have hv : v.narrowed (.object n) = v.narrowed (.base b) := by
    simp only [NativeValue.narrowed, FieldType.primitive?, hn]
  rw [hv, ← hof]
  exact .box (by rw [hn]; rfl) h2.2

theorem refuses_boxed {e : Engine} (hv : T.primitive?.any v.isNumber = false)
    (hT : ∀ b, T ≠ .base b) : (ofNativeReference.boxed e v T).Refuses i t s := by
  cases T with
  | base b => exact absurd rfl (hT b)
  | array c => exact refuses_crossing _ _
  | object n =>
    unfold ofNativeReference.boxed
    dsimp only
    split
    · rename_i b hn
      rw [FieldType.primitive?, hn] at hv
      exact (refuses_ofNativeBase hv).bind _
    · exact refuses_crossing _ _

theorem gives_taken {e : Engine} {w : NativeValue} {x : Exec ObjectId}
    (hof : ofNative e w T = if takes T T then (do pure (.object (← x)))
      else ofNativeReference.boxed e w T)
    (hx : x.Gives i t (fun o m => s.machine.Continues t.id m ∧ m.Renders T (.object o) v) s) :
    (ofNative e w T).GivesRendering i t T v s := by
  rw [hof, if_pos (by simp [takes])]
  exact hx.bind fun o s1 h1 => gives_pure h1

theorem gives_ofNative_number (hs : s.machine.Serves t.id)
    (hv : T.primitive?.any v.isNumber = true)
    (hof : ∀ n, T = .object n → ofNative (.bounded (k + 8)) v T =
      ofNativeReference.boxed (.bounded (k + 8)) v T) :
    (ofNative (.bounded (k + 8)) v T).GivesRendering i t T (v.narrowed T) s := by
  cases T with
  | base b =>
    refine (gives_ofNativeBase hv).mono fun g m h => ?_
    rw [← h.2.1, h.2.2]
    exact ⟨.refl _, .base h.1⟩
  | object n =>
    rw [hof n rfl]
    obtain ⟨b, hb, hv⟩ := (Option.any_eq_true _ _).1 hv
    exact gives_boxed hs hb hv
  | array c => cases hv

theorem gives_ofNative (hs : s.machine.Serves t.id) (hm : s.machine.Mirrored)
    (hv : v.suits T = true) (ha : s.machine.Affords v) :
    (ofNative (.bounded (k + 8)) v T).GivesRendering i t T (v.narrowed T) s := by
  cases v with
  | string text =>
    obtain rfl : T = .string := by simpa [NativeValue.suits] using hv
    exact gives_taken rfl
      ((gives_newString hs text).mono fun o m h => ⟨h.1.toContinues, .string h.2⟩)
  | klass n =>
    obtain rfl : T = .object .klass := by simpa [NativeValue.suits] using hv
    obtain ⟨c, hc⟩ := ha
    exact gives_taken rfl
      ((gives_classObject (k := k + 6) hs hm hc).mono fun o m h => ⟨h.1, .klass h.2⟩)
  | chars units =>
    obtain rfl : T = .chars := by simpa [NativeValue.suits] using hv
    exact gives_taken rfl ((gives_arrayOf hs className?_chars rfl _).mono fun o m h =>
      ⟨h.1.toContinues, .chars h.2 rfl rfl⟩)
  | ints ns =>
    obtain rfl : T = .array .int := by simpa [NativeValue.suits] using hv
    exact gives_taken rfl ((gives_arrayOf hs className?_ints rfl _).mono fun o m h =>
      ⟨h.1.toContinues, .ints h.2 rfl rfl⟩)
  | strings texts =>
    obtain rfl : T = .array .string := by simpa [NativeValue.suits] using hv
    have hbytes : arrayBytes stringsRecord texts.length ≤ s.machine.settings.memoryMax :=
      Nat.le_trans (Nat.min_le_right _ _) ha.1
    refine gives_taken rfl ((gives_newStringArray hs hbytes ha.2).mono fun o m h => ?_)
    obtain ⟨hc, refs, ho, ht⟩ := h
    exact ⟨hc, .strings ho rfl (ArrayStorage.refs?_ofRefs refs) ht⟩
  | null | object =>
    obtain ⟨b, -, hb⟩ := (Option.any_eq_true _ _).1 hv
    cases hb
  | _ =>
    refine gives_ofNative_number hs hv ?_
    rintro n rfl
    rfl

theorem gives_roundTrip (hs : s.machine.Serves t.id) (hm : s.machine.Mirrored)
    (hv : v.suits T = true) (ha : s.machine.Affords v) :
    Gives (do toNative (← ofNative (.bounded (k + 8)) v T) T) i t (fun a _ => a = v.narrowed T) s :=
  (gives_ofNative hs hm hv ha).bind fun _ _ h => gives_toNative (hs.continue h.1) h.2

theorem not_takes {own : FieldType} (hT : T.IsBridged) (h : T ≠ own) : takes T own = false := by
  have hobject : T ≠ .object .object := by
    rintro rfl
    revert hT
    simp only [FieldType.IsBridged]
    decide +kernel
  simp [takes, h, hobject]

theorem refuses_ofNativeReference {e : Engine} (hT : T.IsBridged) (hb : ∀ b, T ≠ .base b)
    (hv : v.suits T = false) (hp : v.passes T = false) :
    (ofNativeReference e v T).Refuses i t s := by
  have other (h : ∀ b, v.isNumber b = false) : (ofNativeReference.boxed e v T).Refuses i t s :=
    refuses_boxed (by cases T.primitive? <;> simp [h]) hb
  cases v with
  | null | object =>
    cases T with
    | base b => exact absurd rfl (hb b)
    | _ => cases hp
  | string | klass | chars | ints | strings =>
    have hne := not_takes hT (by simpa [NativeValue.suits] using hv)
    simp only [ofNativeReference, hne, Bool.false_eq_true, if_false]
    exact other fun _ => rfl
  | _ => exact refuses_boxed hv hb

theorem refuses_ofNative {e : Engine} (hT : T.IsBridged) (hv : v.suits T = false)
    (hp : v.passes T = false) : (ofNative e v T).Refuses i t s := by
  cases T with
  | base b =>
    refine refuses_ofNativeBase ?_
    cases v with
    | string | klass | chars | ints | strings => rfl
    | _ => exact hv
  | _ => exact refuses_ofNativeReference hT nofun hv hp

end Exec

end BytecodeMachine
