import BytecodeMachine.Proofs.Interleaving
import BytecodeMachine.World
import Mathlib.Data.List.Forall2

namespace BytecodeMachine

open Relation

variable {α : Type}

namespace Prog

-- What can be left of a computation, whatever the machine is like in between.
abbrev ComesTo : Prog α → Prog α → Prop := ReflTransGen fun p q => ∃ i s s', p.Moves i s q s'

-- How a computation can end. One that is cut off counts as one without a frame.
def CanEnd (p : Prog (Except RunError Unit)) (r : Except RunError Unit) : Prop :=
  p.ComesTo (.done r) ∨ p.ComesTo .starved ∧ r = .error (.fatal .noFrame)

end Prog

def Progress.fiber : Progress (Except RunError Unit) → Fiber
  | .done r _ => .finished r
  | .blocked b _ resume => .pending b resume
  | .starved => .finished (.error (.fatal .noFrame))

namespace Fiber

variable {p q : Prog (Except RunError Unit)} {b : Blocker} {m m' : Machine} {w : Wake}
  {next : Wake → Machine → Progress (Except RunError Unit)} {f g k : Fiber}

inductive Runs (p : Prog (Except RunError Unit)) : Fiber → Prop
  | start : Runs p (.start p)
  | waiting {b : Blocker} {next : Wake → Prog (Except RunError Unit)} (h : p.ComesTo (.wait b next)) :
      Runs p (.pending b fun w m => (next w).advance m)
  | finished {r : Except RunError Unit} (h : p.CanEnd r) : Runs p (.finished r)

theorem Runs.of_advance (h : p.ComesTo q) (m : Machine) : (q.advance m).fiber.Runs p := by
  obtain ⟨rest, s, hmoves, hrest⟩ := q.advance_moves 0 ⟨m, []⟩
  have hl : p.ComesTo rest :=
    h.trans (hmoves.lift Prod.fst fun a b hm => ⟨0, a.2, b.2, hm⟩)
  cases ha : q.advance m with
  | done r m' =>
    rw [ha] at hrest
    cases hrest.1
    exact .finished (.inl hl)
  | blocked b m' resume =>
    rw [ha] at hrest
    obtain ⟨next, rfl, -, rfl⟩ := hrest
    exact .waiting hl
  | starved =>
    rw [ha] at hrest
    cases hrest
    exact .finished (.inr ⟨hl, rfl⟩)

theorem Runs.step (h : Runs p (.pending b next)) (ha : b.attempt m = some (w, m')) (m1 : Machine) :
    (next w m1).fiber.Runs p := by
  cases h with
  | start => exact .of_advance .refl m1
  | waiting hl => exact .of_advance (hl.tail ⟨0, ⟨m, []⟩, _, .wait _ ha⟩) m1

-- A fiber goes on with what it runs, and no end of one is taken back.
structure Onward (f g : Fiber) : Prop where
  result : ∀ r, f.result? = some r → g.result? = some r
  runs : ∀ p, f.Runs p → g.Runs p

theorem Onward.refl (f : Fiber) : f.Onward f := ⟨fun _ => id, fun _ => id⟩

theorem Onward.trans (h : f.Onward g) (h' : g.Onward k) : f.Onward k :=
  ⟨fun r hr => h'.result r (h.result r hr), fun p hp => h'.runs p (h.runs p hp)⟩

theorem onward_slice (turns : Nat) (f : Fiber) (m : Machine) :
    f.Onward (World.slice turns f m).1 := by
  induction turns generalizing f m with
  | zero => exact .refl f
  | succ turns ih =>
    cases f with
    | finished r => exact .refl _
    | pending b next =>
      rw [World.slice]
      cases ha : b.attempt m with
      | none => exact .refl _
      | some granted =>
        obtain ⟨wake, m'⟩ := granted
        have hnext : (Fiber.pending b next).Onward (next wake (World.tick m')).fiber :=
          ⟨(fun _ hr => nomatch hr), fun p hp => hp.step ha _⟩
        dsimp only
        cases hr : next wake (World.tick m') with
        | done r m1 =>
          rw [hr] at hnext
          exact hnext
        | starved =>
          rw [hr] at hnext
          exact hnext
        | blocked b' m1 next' =>
          rw [hr] at hnext
          exact hnext.trans (ih _ _)

end Fiber

namespace World

abbrev Onward : List Fiber → List Fiber → Prop := List.Forall₂ Fiber.Onward

variable {fs gs ks : List Fiber}

theorem Onward.refl (fs : List Fiber) : Onward fs fs := by
  induction fs with
  | nil => exact .nil
  | cons f rest ih => exact .cons (.refl f) ih

theorem Onward.trans (h : Onward fs gs) (h' : Onward gs ks) : Onward fs ks := by
  induction h generalizing ks with
  | nil => exact h'
  | cons hf _ ih =>
    cases h' with
    | cons hg hrest => exact .cons (hf.trans hg) (ih hrest)

theorem onward_round (fs : List Fiber) (m : Machine) : Onward fs (round fs m).1 := by
  induction fs generalizing m with
  | nil => exact .nil
  | cons f rest ih => exact .cons (f.onward_slice patience m) (ih _)

theorem onward_drive {a : α} {w : World} {bound turns : Nat} {p : Progress α}
    (h : drive bound turns p fs = some (a, w)) : Onward fs w.fibers := by
  induction bound generalizing turns p fs with
  | zero => cases h
  | succ bound ih =>
    cases p with
    | starved => cases h
    | done a m =>
      cases h
      exact .refl fs
    | blocked b m resume =>
      cases turns with
      | zero => exact (onward_round fs m).trans (ih h)
      | succ turns =>
        have hround := onward_round fs m
        rw [drive] at h
        rcases hr : round fs m with ⟨others, m', moved⟩
        rw [hr] at h hround
        split at h
        · exact ih h
        · refine hround.trans ?_
          dsimp only at h
          split at h
          · exact ih h
          · split at h
            · cases h
            · exact ih h

theorem onward_runUntil (test : World → Option α) (limit : Option Nat) (bound : Nat) (w : World) :
    Onward w.fibers (runUntil test limit bound w).2.fibers := by
  induction bound generalizing w with
  | zero => exact .refl _
  | succ bound ih =>
    have hround := onward_round w.fibers w.machine
    rw [runUntil]
    split
    · exact .refl _
    · split
      · exact .refl _
      · dsimp only
        split
        · exact hround.trans (ih ⟨_, _⟩)
        · split
          · exact hround
          · exact hround.trans (ih ⟨_, _⟩)

end World

end BytecodeMachine
