import BytecodeMachine.Proofs.Actions
import BytecodeMachine.Proofs.Contract
import BytecodeMachine.Proofs.Frames

namespace BytecodeMachine

variable {α β : Type}

namespace FrameM

variable {f f' : Frame} {v : Value} {o : ObjectId} {vs : List Value} {context : String} {count : Nat}

theorem stack_of_pop (h : pop.run.run f = (.ok v, f')) :
    ∃ rest, f.stack = v :: rest ∧ f' = { f with stack := rest } := by
  obtain ⟨a, locals, stack, pc, lastPc, tossed, steps⟩ := f
  cases stack with
  | nil => cases h
  | cons w rest =>
    cases h
    exact ⟨rest, rfl, rfl⟩

theorem stack_of_popObject (h : (popObject context).run.run f = (.ok o, f')) :
    ∃ rest, f.stack = .object o :: rest ∧ f' = { f with stack := rest } := by
  obtain ⟨a, locals, stack, pc, lastPc, tossed, steps⟩ := f
  rcases stack with _ | ⟨w, rest⟩
  · cases h
  · cases w with
    | ref r =>
      cases r with
      | none => cases h
      | some p =>
        cases h
        exact ⟨rest, rfl, rfl⟩
    | _ => cases h

theorem stack_of_popMany (h : (popMany count).run.run f = (.ok vs, f')) :
    ∃ rest, f.stack = vs.reverse ++ rest ∧ vs.length = count ∧ f' = { f with stack := rest } := by
  have hrun : (popMany count).run.run f = if f.stack.length < count
      then (.error (.fatal .stackUnderflow), f)
      else (.ok (f.stack.take count).reverse, { f with stack := f.stack.drop count }) := by
    unfold popMany
    rw [run_bind]
    change (if _ then _ else _ : FrameM (List Value)).run.run f = _
    split <;> rfl
  rw [hrun] at h
  split at h
  · cases h
  · rename_i hle
    cases h
    refine ⟨f.stack.drop count, ?_, ?_, rfl⟩
    · rw [List.reverse_reverse, List.take_append_drop]
    · simp only [List.length_reverse, List.length_take]
      omega

end FrameM

namespace Exec

variable {k : Contract} {t : Thread} {s : Scene}

theorem meets_inFrame_bind {action : FrameM α} {g : α → Exec β} {Q : Post β}
    (ok : ∀ f rest a f', t.frames = f :: rest → action.run.run f = (.ok a, f') →
      (g a).Meets k { t with frames := f' :: rest } Q s)
    (trapped : ∀ trap t', Frames.SameBelow t.frames t'.frames → Q (.error trap) t' s) :
    (inFrame action >>= g).Meets k t Q s := by
  refine meets_bind.2 ?_
  cases hf : t.frames with
  | nil => exact (meets_inFrame_nil hf).2 (trapped _ t (.refl _))
  | cons f rest =>
    refine (meets_inFrame_cons hf).2 ?_
    rcases hr : action.run.run f with ⟨_ | a, f'⟩
    · refine trapped _ _ ?_
      rw [hf]
      exact ⟨rfl, rfl⟩
    · exact ok f rest a f' hf hr

end Exec

end BytecodeMachine
