import BytecodeMachine.Proofs.Bridge.Making
import BytecodeMachine.Proofs.Typing.Storage
import Mathlib.Data.List.Forall2

namespace BytecodeMachine

open CoreLibrary

variable {i n : Nat} {t : Thread} {s : Scene} {m m1 m2 m' : Machine} {o array : ObjectId}
  {texts : List (Option String)} {pre refs : List (Option ObjectId)}

namespace Machine

def Shows (m : Machine) (r : Option ObjectId) (text : Option String) : Prop :=
  Option.Rel (fun o text => m.stringValue o = .ok text) r text

theorem not_isText_strings (refs : List (Option ObjectId)) :
    ¬ IsText (.ofStorage stringsRecord (.ofRefs refs)) := by
  rintro (h | ⟨b, units, hb, hu⟩)
  · exact absurd h (by decide : stringsName ≠ .string)
  · cases hb
    cases hu

end Machine

namespace Exec

theorem gives_storeElement (h : s.machine.heap.get? array =
      some (.ofStorage stringsRecord (.ofRefs (pre ++ none :: refs))))
    (hl : (pre ++ none :: refs).length ≤ 2147483648) (o : ObjectId) :
    (storeElement array (.ofNat pre.length) (.object o)).Gives i t (fun _ m =>
      s.machine.Writes t.id (s.machine.heap.modify array (·.setElement pre.length (.object o))) m ∧
        m.heap.get? array = some (.ofStorage stringsRecord (.ofRefs (pre ++ some o :: refs)))) s := by
  have hlt : pre.length < (pre ++ none :: refs).length := by simp
  have hstorage : (storage array).Gives i t
      (fun b m => b = .ofRefs (pre ++ none :: refs) ∧ m = s.machine) s := by
    refine (gives_object h).bind fun a s1 h1 => ?_
    rw [h1.1]
    exact gives_pure ⟨rfl, h1.2⟩
  refine hstorage.bind fun b s1 h1 => ?_
  rw [h1.1, ArrayStorage.checkStore_ofRefs hlt hl]
  refine (gives_update _).mono fun _ m hm => ?_
  rw [h1.2] at hm
  subst hm
  refine ⟨Machine.writes_heap _ _, (Heap.get?_modify_self _ h).trans ?_⟩
  simp only [Object.ofStorage, Object.setElement, ArrayStorage.put_ofRefs]

theorem gives_storeStrings (pre : List (Option ObjectId)) (hs : s.machine.Serves t.id)
    (h : s.machine.heap.get? array = some
      (.ofStorage stringsRecord (.ofRefs (pre ++ List.replicate texts.length none))))
    (hl : pre.length + texts.length ≤ 2147483648) :
    (storeStrings (.bounded (n + 8)) array pre.length texts).Gives i t (fun _ m =>
      s.machine.Continues t.id m ∧ s.machine.KeepsText m ∧
        ∃ refs, m.heap.get? array = some (.ofStorage stringsRecord (.ofRefs (pre ++ refs))) ∧
          List.Forall₂ m.Shows refs texts) s := by
  induction texts generalizing pre s with
  | nil => exact gives_pure ⟨.refl _, fun _ _ hp _ => hp, [], h, .nil⟩
  | cons text rest ih =>
    have hcons (r : Option ObjectId) (l : List (Option ObjectId)) :
        pre ++ r :: l = (pre ++ [r]) ++ l := by simp
    have hlength (r : Option ObjectId) : pre.length + 1 = (pre ++ [r]).length := by simp
    rw [List.length_cons, List.replicate_succ] at h
    rw [List.length_cons] at hl
    cases text with
    | none =>
      rw [storeStrings, hlength none]
      rw [hcons] at h
      refine (ih _ hs h (by simp; omega)).mono fun _ m ⟨hc, hk, refs, hget, hr⟩ => ?_
      rw [← hcons] at hget
      exact ⟨hc, hk, _, hget, .cons .none hr⟩
    | some text =>
      refine (gives_newString hs text).bind fun o s1 h1 => ?_
      obtain ⟨h1, htext⟩ := h1
      have hget := h1.heap _ _ h
      refine (gives_storeElement hget (by simp; omega) o).bind fun _ s2 h2 => ?_
      obtain ⟨h2, hget2⟩ := h2
      have hc := h1.toContinues.trans h2.toContinues
      have hkeep := Machine.keepsText_modify hget (Machine.not_isText_strings _) h2.heap
      rw [hlength (some o)]
      rw [hcons] at hget2
      refine (ih _ (hs.continue hc) hget2 (by simp; omega)).mono
        fun _ m ⟨hc3, hk3, refs, hget3, hr⟩ => ?_
      rw [← hcons] at hget3
      refine ⟨hc.trans hc3, (h1.keepsText.trans hkeep).trans hk3, _, hget3, .cons (.some ?_) hr⟩
      exact hk3.stringValue (hkeep.stringValue htext)

theorem gives_newStringArray (hs : s.machine.Serves t.id)
    (hbytes : arrayBytes stringsRecord texts.length ≤ s.machine.settings.memoryMax)
    (hl : texts.length ≤ 2147483648) :
    (newStringArray (.bounded (n + 8)) texts).Gives i t (fun p m =>
      s.machine.Continues t.id m ∧ ∃ refs,
        m.heap.get? p = some (.ofStorage stringsRecord (.ofRefs refs)) ∧
          List.Forall₂ m.Shows refs texts) s := by
  refine (gives_arrayClass hs className?_strings (c := stringsRecord) rfl).bind fun c s1 h1 => ?_
  obtain ⟨rfl, h1⟩ := h1
  have hnew : (newArray stringsRecord texts.length).Gives i t (fun p m =>
      s1.machine.Adds t.id m ∧ m.heap.get? p = some
        (.ofStorage stringsRecord (.ofRefs (List.replicate texts.length none)))) s1 := by
    refine gives_read.bind fun most s2 h2 => ?_
    rw [← h2.2]
    rw [← h1.settings, ← h2.2] at hbytes
    rw [h2.1, ← h2.2, if_neg (Nat.not_lt.2 hbytes)]
    refine (gives_alloc _ _).mono fun p m h => ⟨h.1, h.2.2.trans ?_⟩
    rw [ArrayStorage.new_of_isReference rfl]
  refine hnew.bind fun p s2 h2 => ?_
  obtain ⟨h2, hp⟩ := h2
  have hc := h1.toContinues.trans h2.toContinues
  have hstore := gives_storeStrings (i := i) (n := n) [] (hs.continue hc) hp (by simpa)
  refine hstore.bind fun _ s3 h3 => gives_pure ?_
  obtain ⟨hc3, -, refs, hget, hr⟩ := h3
  exact ⟨hc.trans hc3, refs, hget, hr⟩

end Exec

end BytecodeMachine
