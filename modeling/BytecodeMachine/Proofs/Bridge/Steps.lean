import BytecodeMachine.Proofs.Bridge.CoreSetup
import BytecodeMachine.Proofs.Frames

namespace BytecodeMachine

variable {i n limit : Nat} {t u v : Thread} {s : Scene} {f : Frame} {rest : Frames}

def Thread.holding (frames : Frames) (t : Thread) : Thread := { t with frames := frames }

@[simp] theorem Thread.holding_id (frames : Frames) (t : Thread) : (t.holding frames).id = t.id :=
  rfl

@[simp] theorem Thread.holding_frames (frames : Frames) (t : Thread) :
    (t.holding frames).frames = frames := rfl

@[simp] theorem Thread.holding_holding (frames frames' : Frames) (t : Thread) :
    (t.holding frames).holding frames' = t.holding frames' := rfl

@[simp] theorem Thread.holding_self (t : Thread) : t.holding t.frames = t := rfl

namespace Exec

theorem gives_shouldTerminate :
    shouldTerminate.Gives i t (fun b m => b = s.machine.shouldTerminate t.id ∧ m = s.machine) s := by
  refine gives_get.bind fun _ s1 h1 => ?_
  rw [h1.1, ← h1.2]
  exact gives_read

theorem gives_warn (m : Method) (steps : Nat) :
    (fetch.warn m steps).Gives i t (fun _ m => s.machine.Prepares t.id m) s := by
  refine gives_read.bind fun every s1 h1 => ?_
  rw [← h1.2]
  split
  · refine gives_get.bind fun _ s2 h2 => (gives_note _).mono fun _ m h => ?_
    rw [h, h2.2]
    exact Machine.prepares_note _ _
  · exact gives_pure (.refl _)

theorem turns_fetch {a : Activation} {x : Instruction} (hf : t.frames = f :: rest)
    (htoss : f.tossed = none) (ha : f.activation = some a) (hx : f.instruction? f.pc = some x) :
    fetch.Turns i t (t.holding (f.stepped :: rest))
      (fun r m => r.2.2 = x ∧ s.machine.Prepares t.id m) s := by
  obtain ⟨_, _, _, pc, _, _, _⟩ := f
  cases htoss
  cases ha
  refine gives_get.bind fun _ s1 h1 => ?_
  obtain ⟨rfl, hm⟩ := h1
  rw [← hm]
  simp only [hf, hx]
  refine turns_modify.bind fun _ s2 h2 => (gives_warn _ _).bind fun _ s3 h3 => gives_pure ?_
  exact ⟨rfl, h2 ▸ h3⟩

theorem turns_run {a : Activation} {x : Instruction} {P R : Unit → Machine → Prop}
    (hs : s.machine.Serves t.id) (hf : t.frames = f :: rest) (hl : limit ≤ rest.length)
    (htoss : f.tossed = none) (ha : f.activation = some a) (hx : f.instruction? f.pc = some x)
    (hstep : ∀ s', s.machine.Prepares t.id s'.machine →
      (execute (.bounded n) x).Turns i (t.holding (f.stepped :: rest)) u P s')
    (hnext : ∀ s', P () s'.machine → ((Engine.bounded n).run limit).Turns i u v R s') :
    ((Engine.bounded (n + 1)).run limit).Turns i t v R s := by
  have hw : ¬ t.isWithin limit = true := by
    rw [Thread.isWithin_iff, Thread.depth, hf, List.length_cons]
    omega
  change (run (.bounded n) limit).Turns i t v R s
  unfold run
  refine gives_get.bind fun _ s1 h1 => ?_
  rw [h1.1, if_neg hw]
  refine gives_turn.bind fun _ s2 h2 => gives_shouldTerminate.bind fun stop s3 h3 => ?_
  have halive : stop = false := by rw [h3.1, h2, h1.2, hs.alive]
  rw [halive, if_neg Bool.false_ne_true]
  have hstep : (step (.bounded n)).Turns i t u P s3 := by
    refine (turns_fetch hf htoss ha hx).bind fun r s4 h4 => ?_
    obtain ⟨m, pc, x'⟩ := r
    obtain ⟨rfl, h4⟩ := h4
    refine (gives_note _).bind fun _ s5 h5 => hstep s5 ?_
    rw [h5]
    rw [h3.2, h2, h1.2] at h4
    exact h4.trans (Machine.prepares_note _ _)
  refine hstep.attempt.bind fun r s6 h6 => ?_
  obtain ⟨⟨⟩, rfl, h6⟩ := h6
  exact hnext s6 h6

theorem turns_run_within (h : t.isWithin limit = true) :
    ((Engine.bounded (n + 1)).run limit).Gives i t (fun _ m => m = s.machine) s := by
  change (run (.bounded n) limit).Turns i t t _ s
  unfold run
  refine gives_get.bind fun _ s1 h1 => ?_
  rw [h1.1, if_pos h]
  exact gives_pure h1.2

theorem turns_inFrame {α : Type} {a : FrameM α} {b : α} {g : Frame} (hf : t.frames = f :: rest)
    (ha : a.run.run f = (.ok b, g)) :
    (inFrame a).Turns i t (t.holding (g :: rest)) (fun c m => c = b ∧ m = s.machine) s := by
  refine ends_inFrame hf ?_
  rw [ha]
  exact ⟨rfl, b, rfl, rfl, rfl⟩

end Exec

end BytecodeMachine
