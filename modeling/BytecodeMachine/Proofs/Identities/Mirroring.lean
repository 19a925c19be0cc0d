import BytecodeMachine.Proofs.Identities.Hands
import BytecodeMachine.Proofs.Typing.Runs

namespace BytecodeMachine

variable {α : Type}

namespace Machine

structure Stands (m m' : Machine) : Prop extends Rests m m' where
  classObjects : m'.classObjects = m.classObjects

theorem Stands.bears {m m' : Machine} (h : m.Stands m') : m.Bears m' where
  classObjects := h.classObjects
  klass o x hx := by
    obtain ⟨x', hx', hk, -⟩ := h.toRests.grows.heap o x hx
    exact ⟨x', hx', hk⟩

end Machine

structure Mirroring (c : Pool α × Scene) : Prop extends Kept c where
  mirrored : c.2.machine.Mirrored
  hands : ∃ r, c.2.machine.InHands r ∧ ∀ i, (c.1 i).Raises i (fun _ => True) [] (r i)

theorem Pool.Step.rests {c c' : Pool α × Scene} (h : Pool.Step Machine.Stands c c') :
    Pool.Step Machine.Rests c c' := by
  cases h with
  | thread i hm => exact .thread i hm
  | outside hm => exact .outside hm.toRests

namespace Mirroring

variable {c c' : Pool α × Scene}

theorem step (h : Mirroring c) (hs : Pool.Step Machine.Stands c c') : Mirroring c' := by
  obtain ⟨r, hr, hp⟩ := h.hands
  have hkept := (h.toKept.step hs.rests).2
  cases hs with
  | thread i hm =>
    obtain ⟨-, l1, l2, hl, he, hq⟩ := (hp i).moves hm ⟨h.sound.libraries, h.sound.closed⟩
    obtain ⟨hm', hr'⟩ := h.mirrored.raises hr hl he
    refine ⟨hkept, hm', _, hr', fun j => ?_⟩
    by_cases hj : j = i
    · subst hj
      simpa using hq
    · simpa [Function.update_of_ne hj] using hp j
  | outside hm => exact ⟨hkept, h.mirrored.bears hm.bears, r, hr.bears hm.bears, hp⟩

theorem run (h : Mirroring c) (hr : Pool.Run Machine.Stands c c') : Mirroring c' := by
  induction hr with
  | refl => exact h
  | tail _ hs ih => exact ih.step hs

end Mirroring

theorem Engine.mirroring_sessions (bound : Nat) (libraries : List Library) (natives : NativeTable)
    (settings : Settings) (stdout stderr : Pipe) (journal : Journal) (name : Nat → String)
    (demands : Nat → List Demand) :
    Mirroring ((bounded bound).sessions name demands,
      .start libraries natives settings stdout stderr journal) where
  toKept := kept_sessions bound libraries natives settings stdout stderr journal name demands
  mirrored := .empty rfl
  hands := by
    refine ⟨fun _ => [], .none _, fun i => ?_⟩
    have h := (Exec.woven_serve (woven_bounded bound) (demands i)).raises (.start i (name i)) rfl
    exact h.mono List.suffix_rfl fun _ _ => trivial

end BytecodeMachine
