import BytecodeMachine.Proofs.Bridge.Boxes
import BytecodeMachine.Proofs.Bridge.Mirrors
import BytecodeMachine.Proofs.Bridge.StringArrays

namespace BytecodeMachine

open CoreLibrary

variable {α β : Type} {i k : Nat} {t : Thread} {s : Scene} {m : Machine} {o : ObjectId}
  {T : FieldType} {b : BaseType} {n : ClassName} {g : Value} {v : NativeValue}

def FieldType.IsBridged : FieldType → Prop
  | .base _ => True
  | .object n => n = .string ∨ n = .klass ∨ n.boxed?.isSome = true
  | .array c => c = .base .char ∨ c = .int ∨ c = .string

inductive Machine.Renders (m : Machine) : FieldType → Value → NativeValue → Prop
  | base {b : BaseType} {g : Value} (h : g.fits (.base b) = true) :
      Renders m (.base b) g (.ofValue g)
  | string {o : ObjectId} {text : String} (h : m.stringValue o = .ok text) :
      Renders m .string (.object o) (.string text)
  | klass {o : ObjectId} {n : ClassName} (h : m.classNameOf? o = some n) :
      Renders m (.object .klass) (.object o) (.klass n)
  | box {o : ObjectId} {n : ClassName} {g : Value} (hn : n.boxed?.isSome = true)
      (h : m.Boxes o n g) : Renders m (.object n) (.object o) (.ofValue g)
  | chars {o : ObjectId} {x : Object} {s : ArrayStorage} {units : List UInt16}
      (ho : m.heap.get? o = some x) (hs : x.storage = .ok s) (h : s.chars? = some units) :
      Renders m .chars (.object o) (.chars units)
  | ints {o : ObjectId} {x : Object} {s : ArrayStorage} {ns : List Int32}
      (ho : m.heap.get? o = some x) (hs : x.storage = .ok s) (h : s.ints? = some ns) :
      Renders m (.array .int) (.object o) (.ints ns)
  | strings {o : ObjectId} {x : Object} {s : ArrayStorage} {refs : List (Option ObjectId)}
      {texts : List (Option String)} (ho : m.heap.get? o = some x) (hs : x.storage = .ok s)
      (h : s.refs? = some refs) (ht : List.Forall₂ m.Shows refs texts) :
      Renders m (.array .string) (.object o) (.strings texts)

namespace Exec

def Refuses (x : Exec α) (i : Nat) (t : Thread) (s : Scene) : Prop :=
  x.Ends i t (fun r t' _ => t' = t ∧ ∃ f, r = .error (.fatal f)) s

theorem Turns.refuses {x : Exec α} {f : α → Exec β} {P : α → Machine → Prop}
    (hx : x.Gives i t P s) (hf : ∀ a s', P a s'.machine → (f a).Refuses i t s') :
    (x >>= f).Refuses i t s :=
  hx.bind_ends hf

theorem Refuses.bind {x : Exec α} (hx : x.Refuses i t s) (f : α → Exec β) :
    (x >>= f).Refuses i t s := by
  refine ends_bind.2 (Ends.mono hx ?_)
  rintro r t' s' ⟨rfl, e, rfl⟩
  exact ⟨rfl, e, rfl⟩

theorem refuses_fail (f : Fault) : (fail f : Exec α).Refuses i t s := ⟨rfl, f, rfl⟩

theorem refuses_crossing (shown : Machine → String) (T : FieldType) :
    (refuseCrossing shown T : Exec α).Refuses i t s :=
  gives_read.refuses fun _ _ _ => refuses_fail _

theorem gives_stringValue {text : String} (h : s.machine.stringValue o = .ok text) :
    (stringValue o).Gives i t (fun a m => a = text ∧ m = s.machine) s := by
  refine gives_read.bind fun r s1 h1 => ?_
  rw [h1.1, h]
  exact gives_pure ⟨rfl, h1.2⟩

theorem refuses_stringValue {e : Fault} (h : s.machine.stringValue o = .error e) :
    (stringValue o).Refuses i t s := by
  refine gives_read.refuses fun r s1 h1 => ?_
  rw [h1.1, h]
  exact refuses_fail e

theorem gives_storage {x : Object} {c : ArrayStorage} (ho : s.machine.heap.get? o = some x)
    (hc : x.storage = .ok c) :
    (storage o).Gives i t (fun a m => a = c ∧ m = s.machine) s := by
  refine (gives_object ho).bind fun a s1 h1 => ?_
  rw [h1.1, hc]
  exact gives_pure ⟨rfl, h1.2⟩

theorem refuses_object (ho : s.machine.heap.get? o = none) : (object o).Refuses i t s := by
  refine gives_read.refuses fun found s1 h1 => ?_
  rw [h1.1, ho]
  exact refuses_fail _

theorem refuses_storage
    (h : ∀ x c, s.machine.heap.get? o = some x → x.storage ≠ .ok c) :
    (storage o).Refuses i t s := by
  cases ho : s.machine.heap.get? o with
  | none => exact (refuses_object ho).bind _
  | some x =>
    refine (gives_object ho).refuses fun a s1 h1 => ?_
    rw [h1.1]
    cases hx : x.storage with
    | error e => exact refuses_fail e
    | ok c => exact absurd hx (h x c ho)

theorem gives_hostStrings {refs : List (Option ObjectId)} {texts : List (Option String)}
    (h : List.Forall₂ s.machine.Shows refs texts) :
    (hostStrings refs).Gives i t (fun a m => a = texts ∧ m = s.machine) s := by
  induction refs generalizing texts s with
  | nil =>
    cases h
    exact gives_pure ⟨rfl, rfl⟩
  | cons r rest ih =>
    cases h with
    | cons hr hrest =>
      cases hr with
      | none =>
        refine (ih hrest).bind fun l s1 h1 => gives_pure ?_
        exact ⟨congrArg _ h1.1, h1.2⟩
      | some hr =>
        refine (gives_stringValue hr).bind fun text s1 h1 => ?_
        rw [← h1.2] at hrest
        refine (ih hrest).bind fun l s2 h2 => gives_pure ?_
        exact ⟨by rw [h1.1, h2.1], h2.2.trans h1.2⟩

theorem refuses_hostStrings {refs : List (Option ObjectId)}
    (h : ∀ texts, ¬ List.Forall₂ s.machine.Shows refs texts) :
    (hostStrings refs).Refuses i t s := by
  induction refs generalizing s with
  | nil => exact absurd .nil (h [])
  | cons r rest ih =>
    cases r with
    | none => exact (ih fun texts ht => h _ (.cons .none ht)).bind _
    | some o =>
      cases ho : s.machine.stringValue o with
      | error e => exact (refuses_stringValue ho).bind _
      | ok text =>
        refine (gives_stringValue ho).refuses fun _ s1 h1 => (ih fun texts ht => ?_).bind _
        rw [h1.2] at ht
        exact h _ (.cons (.some ho) ht)

end Exec

theorem ClassName.ne_of_boxed? (h : n.boxed?.isSome = true) : n ≠ .string ∧ n ≠ .klass := by
  constructor
  all_goals
    rintro rfl
    exact absurd h (by decide +kernel)

namespace Exec

theorem gives_toNative (hs : s.machine.Serves t.id) (h : s.machine.Renders T g v) :
    (toNative g T).Gives i t (fun a _ => a = v) s := by
  cases h with
  | base h =>
    simp only [toNative, h, if_true]
    exact gives_pure rfl
  | string h =>
    change (objectToNative _ .string).Gives i t _ s
    exact (gives_stringValue h).bind fun a _ h1 => gives_pure (by rw [h1.1])
  | klass h =>
    change (objectToNative _ .klass).Gives i t _ s
    refine (gives_classNameOf? hs _).bind fun r _ h1 => ?_
    rw [h1.1, h]
    exact gives_pure rfl
  | @box o n w hn h =>
    obtain ⟨x, ho, hk⟩ := h.object
    change (objectToNative o n).Gives i t _ s
    simp only [objectToNative, ClassName.ne_of_boxed? hn, hn, if_false, if_true]
    refine (gives_classOf ho).bind fun c s1 h1 => ?_
    have hname : c.name = n := h1.1 ▸ hk
    rw [← h1.2] at h
    simp only [hname, ne_eq, not_true_eq_false, if_false]
    exact (gives_unbox h).bind fun a _ h2 => gives_pure (congrArg _ h2.1)
  | chars ho hb h =>
    refine (gives_storage ho hb).bind fun a s1 h1 => ?_
    rw [h1.1]
    simp only [if_true, h]
    exact gives_pure rfl
  | ints ho hb h =>
    refine (gives_storage ho hb).bind fun a s1 h1 => ?_
    rw [h1.1, if_neg (by decide : FieldType.int ≠ .base .char), if_pos rfl]
    simp only [h]
    exact gives_pure rfl
  | strings ho hb h ht =>
    refine (gives_storage ho hb).bind fun a s1 h1 => ?_
    rw [h1.1, if_neg (by decide : FieldType.string ≠ .base .char),
      if_neg (by decide : FieldType.string ≠ .int), if_pos rfl]
    rw [← h1.2] at ht
    simp only [h]
    exact (gives_hostStrings ht).bind fun a _ h2 => gives_pure (congrArg _ h2.1)

theorem refuses_objectToNative (hs : s.machine.Serves t.id) (hT : (FieldType.object n).IsBridged)
    (h : ∀ v, ¬ s.machine.Renders (.object n) (.object o) v) :
    (objectToNative o n).Refuses i t s := by
  rw [objectToNative]
  split
  · rename_i hn
    subst hn
    cases ho : s.machine.stringValue o with
    | error e => exact (refuses_stringValue ho).bind _
    | ok text => exact absurd (.string ho) (h _)
  split
  · rename_i hn
    subst hn
    refine (gives_classNameOf? hs o).refuses fun r s1 h1 => ?_
    rw [h1.1]
    cases hr : s.machine.classNameOf? o with
    | none => exact refuses_crossing _ _
    | some name => exact absurd (.klass hr) (h _)
  · rename_i hstring hklass
    have hbox : n.boxed?.isSome = true := (hT.resolve_left hstring).resolve_left hklass
    rw [if_pos hbox]
    cases ho : s.machine.heap.get? o with
    | none => exact ((refuses_object ho).bind _).bind _
    | some x =>
      refine (gives_classOf ho).refuses fun c s1 h1 => ?_
      split
      · exact refuses_crossing _ _
      · rename_i hname
        have hname : x.klass.name = n := by simpa [h1.1] using hname
        refine Refuses.bind ?_ _
        refine gives_read.refuses fun r s2 h2 => ?_
        cases hr : s.machine.unbox o with
        | error e =>
          rw [h2.1, h1.2, hr]
          exact refuses_fail e
        | ok g => exact absurd (.box hbox ⟨⟨x, ho, hname⟩, hr⟩) (h _)

theorem refuses_arrayToNative {c : FieldType} (hT : (FieldType.array c).IsBridged)
    (h : ∀ v, ¬ s.machine.Renders (.array c) (.object o) v) :
    (arrayToNative o c).Refuses i t s := by
  by_cases hx : ∃ x b, s.machine.heap.get? o = some x ∧ x.storage = .ok b
  · obtain ⟨x, b, ho, hb⟩ := hx
    refine (gives_storage ho hb).refuses fun a s1 h1 => ?_
    rw [h1.1]
    split
    · rename_i hc
      subst hc
      cases hu : b.chars? with
      | none => exact refuses_crossing _ _
      | some units => exact absurd (.chars ho hb hu) (h _)
    split
    · rename_i hc
      subst hc
      cases hu : b.ints? with
      | none => exact refuses_crossing _ _
      | some ns => exact absurd (.ints ho hb hu) (h _)
    · rename_i hchar hint
      have hc : c = .string := (hT.resolve_left hchar).resolve_left hint
      subst hc
      rw [if_pos rfl]
      cases hu : b.refs? with
      | none => exact refuses_crossing _ _
      | some refs =>
        refine (refuses_hostStrings fun texts ht => ?_).bind _
        rw [h1.2] at ht
        exact h _ (.strings ho hb hu ht)
  · exact (refuses_storage fun x b ho hb => hx ⟨x, b, ho, hb⟩).bind _

theorem refuses_toNative (hs : s.machine.Serves t.id) (hT : T.IsBridged)
    (hnull : g = .null → ∃ b, T = .base b) (h : ∀ v, ¬ s.machine.Renders T g v) :
    (toNative g T).Refuses i t s := by
  cases T with
  | base b =>
    have hg : ¬ g.fits (.base b) = true := fun hg => h _ (.base hg)
    simp only [toNative, hg]
    exact refuses_crossing _ _
  | object n =>
    rcases g with _ | _ | _ | _ | (_ | o)
    case ref.none => obtain ⟨b, hb⟩ := hnull rfl; cases hb
    case ref.some => exact refuses_objectToNative hs hT h
    all_goals exact refuses_crossing _ _
  | array c =>
    rcases g with _ | _ | _ | _ | (_ | o)
    case ref.none => obtain ⟨b, hb⟩ := hnull rfl; cases hb
    case ref.some => exact refuses_arrayToNative hT h
    all_goals exact refuses_crossing _ _

end Exec

end BytecodeMachine
