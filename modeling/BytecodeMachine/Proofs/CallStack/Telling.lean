import BytecodeMachine.SystemCall
import BytecodeMachine.Proofs.Numberings

namespace BytecodeMachine

variable {t : Thread} {f : Frame} {a : Activation} {depth item n : Int32} {text : String}
  {m : Machine}

inductive Activation.Tells (a : Activation) : Int32 → String → Prop
  | className : a.Tells 0 a.klass.name.text
  | methodName : a.Tells 1 a.method.name.text
  | methodType : a.Tells 2 a.method.type.text
  | source {file : String} (h : a.klass.source = some file) : a.Tells 3 file

inductive Frame.Shows (f : Frame) : Int32 → Int32 → Prop
  | line : f.Shows 4 ((f.line?.map Int32.ofNat).getD (-1))
  | place : f.Shows 5 (.ofNat f.lastPc)
  | guestPlace : f.Shows 6 (.ofNat f.lastPc)

theorem Activation.Tells.unique {text' : String} (h : a.Tells item text) (h' : a.Tells item text') :
    text = text' := by
  generalize hitem : item = item' at h'
  cases h <;> cases h'
  case source.source hs hs' => exact Option.some.inj (hs.symm.trans hs')
  all_goals first | rfl | exact absurd hitem (by decide)

theorem Activation.Tells.not_shows (h : a.Tells item text) : ¬f.Shows item n := by
  intro hs
  generalize hitem : item = item' at hs
  cases h <;> cases hs <;> exact absurd hitem (by decide)

theorem Activation.Tells.range (h : a.Tells item text) : 0 ≤ item.toInt ∧ item.toInt ≤ 6 := by
  cases h <;> decide

theorem Frame.Shows.range (h : f.Shows item n) : 0 ≤ item.toInt ∧ item.toInt ≤ 6 := by
  cases h <;> decide

theorem Frame.Shows.unique {n' : Int32} (h : f.Shows item n) (h' : f.Shows item n') : n = n' := by
  generalize hitem : item = item' at h'
  cases h <;> cases h' <;> first | rfl | exact absurd hitem (by decide)

namespace Thread

def height (t : Thread) : Nat := t.frames.countP (!·.isBlank)

def StandsAt (t : Thread) (depth : Int32) (f : Frame) (a : Activation) : Prop :=
  ∃ inner outer, t.frames = inner ++ f :: outer ∧ f.activation = some a ∧
    depth.toInt = inner.countP (!·.isBlank)

def Tells (t : Thread) (depth item : Int32) (text : String) : Prop :=
  ∃ f a, t.StandsAt depth f a ∧ a.Tells item text

def Shows (t : Thread) (depth item n : Int32) : Prop :=
  ∃ f a, t.StandsAt depth f a ∧ f.Shows item n

def Lacks (t : Thread) (depth item : Int32) : Prop :=
  ¬(0 ≤ depth.toInt ∧ depth.toInt < t.height) ∨ ¬(0 ≤ item.toInt ∧ item.toInt ≤ 6) ∨
    item = 3 ∧ ∀ f a, t.StandsAt depth f a → a.klass.source = none

theorem length_activations (t : Thread) : t.activations.length = t.height := by
  unfold activations height
  rw [List.length_filterMap_eq_countP]
  congr 1
  funext f
  cases hf : f.activation <;> simp [Frame.isBlank, hf]

def Within (frames : List Frame) (k : Nat) (f : Frame) (a : Activation) : Prop :=
  ∃ inner outer, frames = inner ++ f :: outer ∧ f.activation = some a ∧ k = inner.countP (!·.isBlank)

theorem within_cons {g : Frame} {rest : List Frame} {k : Nat} : Within (g :: rest) k f a ↔
    g = f ∧ f.activation = some a ∧ k = 0 ∨
      ∃ j, Within rest j f a ∧ k = j + if g.isBlank then 0 else 1 := by
  have hcount (inner : List Frame) : (g :: inner).countP (!·.isBlank) =
      inner.countP (!·.isBlank) + if g.isBlank then 0 else 1 := by
    cases hg : g.isBlank <;> simp [hg]
  constructor
  · rintro ⟨inner, outer, hsplit, hf, rfl⟩
    cases inner with
    | nil => exact .inl ⟨(List.cons.inj hsplit).1, hf, rfl⟩
    | cons g' inner =>
      obtain ⟨rfl, rfl⟩ := List.cons.inj hsplit
      exact .inr ⟨_, ⟨inner, outer, rfl, hf, rfl⟩, hcount inner⟩
  · rintro (⟨rfl, hf, rfl⟩ | ⟨j, ⟨inner, outer, rfl, hf, rfl⟩, rfl⟩)
    · exact ⟨[], rest, rfl, hf, rfl⟩
    · exact ⟨g :: inner, outer, rfl, hf, (hcount inner).symm⟩

-- By induction on the frames, from the innermost one.
theorem getElem?_activations {k : Nat} :
    t.activations[k]? = some (f, a) ↔ Within t.frames k f a := by
  unfold activations
  generalize t.frames = frames
  induction frames generalizing k with
  | nil => simp [Within]
  | cons g rest ih =>
    rw [within_cons]
    cases hg : g.activation with
    | none =>
      have hf : ¬(g = f ∧ f.activation = some a ∧ k = 0) := by
        rintro ⟨rfl, hf, -⟩
        rw [hg] at hf
        cases hf
      rw [List.filterMap_cons_none (by rw [hg]; rfl), ih]
      simp [hf, Frame.isBlank, hg]
    | some b =>
      rw [List.filterMap_cons_some (by rw [hg]; rfl)]
      cases k with
      | zero =>
        have hnext : ¬∃ j, Within rest j f a ∧ 0 = j + if g.isBlank then 0 else 1 := by
          simp [Frame.isBlank, hg]
        refine ⟨fun h => ?_, fun h => ?_⟩
        · obtain ⟨rfl, rfl⟩ := Prod.mk.inj (Option.some.inj h)
          exact .inl ⟨rfl, hg, rfl⟩
        · obtain ⟨rfl, hf, -⟩ := h.resolve_right hnext
          rw [hg] at hf
          cases hf
          rfl
      | succ k =>
        rw [List.getElem?_cons_succ, ih]
        simp [Frame.isBlank, hg]

theorem standsAt_iff : t.StandsAt depth f a ↔
    0 ≤ depth.toInt ∧ t.activations[depth.toInt.toNat]? = some (f, a) := by
  rw [getElem?_activations, Within]
  constructor
  · rintro ⟨inner, outer, hsplit, hf, hd⟩
    exact ⟨by omega, inner, outer, hsplit, hf, by omega⟩
  · rintro ⟨hpos, inner, outer, hsplit, hf, hd⟩
    exact ⟨inner, outer, hsplit, hf, by omega⟩

theorem StandsAt.unique {f' : Frame} {a' : Activation} (h : t.StandsAt depth f a)
    (h' : t.StandsAt depth f' a') : f = f' ∧ a = a' :=
  Prod.mk.inj (Option.some.inj ((standsAt_iff.1 h).2.symm.trans (standsAt_iff.1 h').2))

theorem Tells.unique {text' : String} (h : t.Tells depth item text) (h' : t.Tells depth item text') :
    text = text' := by
  obtain ⟨f, a, hf, ht⟩ := h
  obtain ⟨f', a', hf', ht'⟩ := h'
  obtain ⟨rfl, rfl⟩ := hf.unique hf'
  exact ht.unique ht'

theorem Shows.unique {n' : Int32} (h : t.Shows depth item n) (h' : t.Shows depth item n') : n = n' := by
  obtain ⟨f, a, hf, hs⟩ := h
  obtain ⟨f', a', hf', hs'⟩ := h'
  obtain ⟨rfl, -⟩ := hf.unique hf'
  exact hs.unique hs'

theorem Tells.not_shows (h : t.Tells depth item text) : ¬t.Shows depth item n := by
  obtain ⟨f, a, hf, ht⟩ := h
  rintro ⟨f', a', -, hs⟩
  exact ht.not_shows hs

theorem exists_standsAt :
    (∃ f a, t.StandsAt depth f a) ↔ 0 ≤ depth.toInt ∧ depth.toInt < t.height := by
  simp only [standsAt_iff, ← length_activations]
  constructor
  · rintro ⟨f, a, hpos, h⟩
    have := (List.getElem?_eq_some_iff.1 h).1
    exact ⟨hpos, by omega⟩
  · rintro ⟨hpos, hlt⟩
    exact ⟨_, _, hpos, List.getElem?_eq_getElem (by omega)⟩

theorem exists_tells (hi : item = 0 ∨ item = 1 ∨ item = 2) :
    (∃ text, t.Tells depth item text) ↔ 0 ≤ depth.toInt ∧ depth.toInt < t.height := by
  rw [← exists_standsAt]
  refine ⟨fun ⟨_, f, a, h, _⟩ => ⟨f, a, h⟩, fun ⟨f, a, h⟩ => ?_⟩
  rcases hi with rfl | rfl | rfl
  · exact ⟨_, f, a, h, .className⟩
  · exact ⟨_, f, a, h, .methodName⟩
  · exact ⟨_, f, a, h, .methodType⟩

theorem exists_tells_source : (∃ text, t.Tells depth 3 text) ↔
    ∃ f a, t.StandsAt depth f a ∧ a.klass.source.isSome = true := by
  constructor
  · rintro ⟨text, f, a, h, ht⟩
    generalize hitem : (3 : Int32) = item at ht
    cases ht with
    | source hs => exact ⟨f, a, h, hs ▸ rfl⟩
    | _ => exact absurd hitem (by decide)
  · rintro ⟨f, a, h, hs⟩
    obtain ⟨file, hs⟩ := Option.isSome_iff_exists.1 hs
    exact ⟨file, f, a, h, .source hs⟩

theorem Lacks.not_tells (h : t.Lacks depth item) : ¬t.Tells depth item text := by
  rintro ⟨f, a, hf, ht⟩
  rcases h with hdepth | hitem | ⟨rfl, hsource⟩
  · exact hdepth (exists_standsAt.1 ⟨f, a, hf⟩)
  · exact hitem ht.range
  · obtain ⟨f', a', hf', hs⟩ := exists_tells_source.1 ⟨text, f, a, hf, ht⟩
    rw [hsource f' a' hf'] at hs
    cases hs

theorem Lacks.not_shows (h : t.Lacks depth item) : ¬t.Shows depth item n := by
  rintro ⟨f, a, hf, hs⟩
  rcases h with hdepth | hitem | ⟨rfl, -⟩
  · exact hdepth (exists_standsAt.1 ⟨f, a, hf⟩)
  · exact hitem hs.range
  · generalize hitem : (3 : Int32) = item at hs
    cases hs <;> exact absurd hitem (by decide)

end Thread

namespace Machine

theorem frameItem_of_tells (h : a.Tells item text) :
    m.frameItem f a item = (.ok (m.stringId text).1, (m.stringId text).2) := by
  cases h with
  | source hs => simp [frameItem, hs]
  | _ => rfl

theorem frameItem_of_shows (h : f.Shows item n) : m.frameItem f a item = (.ok n, m) := by
  cases h <;> rfl

theorem frameItem_of_none (ht : ∀ text, ¬a.Tells item text) (hs : ∀ n, ¬f.Shows item n) :
    m.frameItem f a item = (.error .outOfRange, m) := by
  by_cases h0 : item = 0
  · exact absurd (h0 ▸ Activation.Tells.className) (ht _)
  by_cases h1 : item = 1
  · exact absurd (h1 ▸ Activation.Tells.methodName) (ht _)
  by_cases h2 : item = 2
  · exact absurd (h2 ▸ Activation.Tells.methodType) (ht _)
  by_cases h4 : item = 4
  · exact absurd (h4 ▸ Frame.Shows.line) (hs _)
  by_cases h5 : item = 5
  · exact absurd (h5 ▸ Frame.Shows.place) (hs _)
  by_cases h6 : item = 6
  · exact absurd (h6 ▸ Frame.Shows.guestPlace) (hs _)
  by_cases h3 : item = 3
  · subst h3
    cases hsource : a.klass.source with
    | none => simp [frameItem, hsource]
    | some file => exact absurd (.source hsource) (ht file)
  · simp [frameItem, h0, h1, h2, h3, h4, h5, h6]

theorem threads_frameItem (f : Frame) (a : Activation) (item : Int32) (m : Machine) :
    (m.frameItem f a item).2.threads = m.threads := by
  unfold frameItem
  dsimp only
  repeat' split
  all_goals rfl

end Machine

namespace Thread

variable {strings : Numbering String}

inductive Asked (t : Thread) (depth item : Int32) (strings : Numbering String) :
    Except CallError Int32 → Numbering String → Prop
  | told {text : String} (h : t.Tells depth item text) :
      Asked t depth item strings (.ok (strings.number text).1) (strings.number text).2
  | shown {n : Int32} (h : t.Shows depth item n) : Asked t depth item strings (.ok n) strings
  | refused (ht : ∀ text, ¬t.Tells depth item text) (hs : ∀ n, ¬t.Shows depth item n) :
      Asked t depth item strings (.error .outOfRange) strings

theorem asked_frameItem (h : t.StandsAt depth f a) (m : Machine) :
    t.Asked depth item m.strings (m.frameItem f a item).1 (m.frameItem f a item).2.strings := by
  by_cases ht : ∃ text, a.Tells item text
  · obtain ⟨text, ht⟩ := ht
    rw [Machine.frameItem_of_tells ht]
    exact .told ⟨f, a, h, ht⟩
  by_cases hs : ∃ n, f.Shows item n
  · obtain ⟨n, hs⟩ := hs
    rw [Machine.frameItem_of_shows hs]
    exact .shown ⟨f, a, h, hs⟩
  rw [not_exists] at ht hs
  rw [Machine.frameItem_of_none ht hs]
  refine .refused (fun text => ?_) fun n => ?_
  · rintro ⟨f', a', hf, h'⟩
    obtain ⟨-, rfl⟩ := h.unique hf
    exact ht text h'
  · rintro ⟨f', a', hf, h'⟩
    obtain ⟨rfl, -⟩ := h.unique hf
    exact hs n h'

theorem asked_of_none (h : ∀ f a, ¬t.StandsAt depth f a) :
    t.Asked depth item strings (.error .outOfRange) strings :=
  .refused (fun _ ⟨f, a, hf, _⟩ => h f a hf) fun _ ⟨f, a, hf, _⟩ => h f a hf

end Thread

end BytecodeMachine
