import BytecodeMachine.Proofs.Finals.Threads
import BytecodeMachine.Proofs.Initialization

namespace BytecodeMachine

open InitState

namespace Scene

variable {i : Nat} {s s1 s2 s3 : Scene} {m : Machine}

theorem sane_start (libraries : List Library) (natives : NativeTable) (settings : Settings)
    (stdout stderr : Pipe) (journal : Journal) :
    (start libraries natives settings stdout stderr journal).Sane :=
  ⟨ClassTable.closed_nil _, nofun⟩

theorem sealing_rely (h : s.machine.Keeps m) : (Contract.sealing i).rely s (s.become m) :=
  fun hs => ⟨hs.loads h.loads, undisturbed_of_loads h.loads⟩

theorem Seals.refl (s : Scene) : s.Seals s :=
  .of_values (fun _ _ h => h) (List.suffix_refl _) (fun _ h => h) rfl

theorem Seals.trans (h : s1.Seals s2) (h' : s2.Seals s3) : s1.Seals s3 where
  grows n c hc := h'.grows n c (h.grows n c hc)
  passed := h.passed.trans h'.passed
  done n hn := h'.done n (h.done n hn)
  values n c f hn hc hf hfin := by
    rcases h.values n c f hn hc hf hfin with hr | hv
    · exact .inl (hr.mono h'.passed)
    · rw [← hv]
      exact h'.values n c f (h.done n hn) (h.grows n c hc) hf hfin

theorem seals_spares {m : Machine} (h : s.machine.Spares m) (hs : s.Sane) :
    s.Seals (s.become m) :=
  ((sealing_learns (i := 0) h.learns) hs).2.2

end Scene

section Runs

variable {α : Type} {c c' : Pool α × Scene}

structure Sealed (c : Pool α × Scene) : Prop where
  sane : c.2.Sane
  safe : ∀ i, (c.1 i).Safe (.sealing i) c.2

theorem Sealed.step (h : Sealed c) (hs : Pool.Step Machine.Keeps c c') : Sealed c' where
  safe := Contract.family_sealing.step (fun _ _ _ => Scene.sealing_rely) h.safe hs
  sane := by
    cases hs with
    | thread i hm => exact ((Contract.family_sealing.moves (h.safe i) hm).1 h.sane).1
    | outside hm => exact h.sane.loads hm.loads

theorem Sealed.run (h : Sealed c) (hr : Pool.Run Machine.Keeps c c') : Sealed c' := by
  induction hr with
  | refl => exact h
  | tail _ hs ih => exact ih.step hs

theorem Sealed.seals (h : Sealed c) (hs : Pool.Step Machine.Spares c c') : c.2.Seals c'.2 := by
  cases hs with
  | thread i hm => exact ((Contract.family_sealing.moves (h.safe i) hm).1 h.sane).2.2
  | outside hm => exact Scene.seals_spares hm h.sane

theorem Pool.Step.keeps (hs : Pool.Step Machine.Spares c c') : Pool.Step Machine.Keeps c c' := by
  cases hs with
  | thread i hm => exact .thread i hm
  | outside hm => exact .outside hm.toKeeps

theorem Sealed.forward (h : Sealed c) (hr : Pool.Run Machine.Spares c c') :
    Sealed c' ∧ c.2.Seals c'.2 := by
  induction hr with
  | refl => exact ⟨h, .refl _⟩
  | tail _ hs ih => exact ⟨ih.1.step hs.keeps, ih.2.trans (ih.1.seals hs)⟩

end Runs

namespace Engine

theorem sealed_sessions (bound : Nat) (libraries : List Library) (natives : NativeTable)
    (settings : Settings) (stdout stderr : Pipe) (journal : Journal) (name : Nat → String)
    (demands : Nat → List Demand) :
    Sealed ((bounded bound).sessions name demands,
      .start libraries natives settings stdout stderr journal) where
  sane := Scene.sane_start ..
  safe i := by
    have hs := Scene.sane_start libraries natives settings stdout stderr journal
    have h := Exec.sealing_serve (isSealing_bounded bound) (demands i) i (.start i (name i)) _
      ⟨rfl, nofun, hs, fun _ hn => (nomatch hn.1), nofun⟩
    exact Prog.Meets.mono h fun _ _ _ => trivial

theorem finals_frozen (bound : Nat) (libraries : List Library) (natives : NativeTable)
    (settings : Settings) (stdout stderr : Pipe) (journal : Journal) (name : Nat → String)
    (demands : Nat → List Demand) {c : Pool (Except Trap Unit × Thread) × Scene}
    (hr : Pool.Run Machine.Keeps ((bounded bound).sessions name demands,
      .start libraries natives settings stdout stderr journal) c)
    {n : ClassName} {k : Class} {f : Field} (hn : c.2.state n = initialized)
    (hk : c.2.found n = some k) (hf : f ∈ k.fields) (hfin : f.isFinal = true) :
    ∀ c', Pool.Run Machine.Spares c c' →
      c'.2.state n = initialized ∧ c'.2.found n = some k ∧
        (¬ c'.2.Recalled n → c'.2.machine.static f = c.2.machine.static f) := by
  intro c' hr'
  have h := (sealed_sessions bound libraries natives settings stdout stderr journal name
    demands).run hr
  have hseals := (h.forward hr').2
  refine ⟨hseals.done n hn, hseals.grows n k hk, fun hnot => ?_⟩
  exact (hseals.values n k f hn hk hf hfin).resolve_left hnot

end Engine

theorem Engine.finals_frozen_of_sample :
    ∃ c, Pool.Run Machine.Keeps (samplePool, sampleScene) c ∧
      (c.2.state sampleName = initialized ∧ c.2.found sampleName = some sampleClass ∧
        constantField ∈ sampleClass.fields ∧ constantField.isFinal = true) ∧
      ∀ c', Pool.Run Machine.Spares c c' → ¬ c'.2.Recalled sampleName →
        c'.2.machine.static constantField = .int 7 := by
  obtain ⟨c, -, hr, -, hm, -⟩ := run_sample Machine.Keeps
  have hn : c.2.state sampleName = initialized := by rw [Scene.state, hm]; rfl
  have hk : c.2.found sampleName = some sampleClass := by rw [Scene.found, hm]; rfl
  have hv : c.2.machine.static constantField = .int 7 := by rw [hm]; rfl
  have hf : constantField ∈ sampleClass.fields := List.mem_cons_self
  refine ⟨c, hr, ⟨hn, hk, hf, rfl⟩, fun c' hr' hnot => ?_⟩
  have h := finals_frozen 12 [sampleLibrary] .standard .standard .sound .sound (.ofVerbosity none)
    (fun _ => "main") (fun _ => sampleDemands) hr hn hk hf rfl
  exact ((h c' hr').2.2 hnot).trans hv

end BytecodeMachine
