import BytecodeMachine.Proofs.Bridge.Shapes

namespace BytecodeMachine

theorem Engine.bridge_exact (bound k : Nat) (libraries : List Library) (natives : NativeTable)
    (settings : Settings) (stdout stderr : Pipe) (journal : Journal) (name : Nat → String)
    (demands : Nat → List Demand) {c : Pool (Except Trap Unit × Thread) × Scene}
    (hr : Pool.Run Machine.Stands ((bounded bound).sessions name demands,
      .start libraries natives settings stdout stderr journal) c)
    (t : Thread) (halive : c.2.machine.shouldTerminate t.id = false)
    (hfree : c.2.machine.Free t.id) (T : FieldType) (hT : T.IsBridged) :
    Exec.Bridges k t T c.2 := by
  have h := (mirroring_sessions bound libraries natives settings stdout stderr journal name
    demands).run hr
  exact Exec.bridges ⟨h.sound.libraries, h.sound.closed, halive, hfree⟩ h.mirrored h.sound hT

theorem Engine.bridge_exact_after_loading :
    ∃ c : Pool (Except Trap Unit × Thread) × Scene,
      Pool.Run Machine.Stands ((bounded 5).sessions (fun _ => "main") fun _ => [.setUp .object],
        .start [] .standard .standard .sound .sound (.ofVerbosity none)) c ∧
      c.2.machine.shouldTerminate 1 = false ∧ c.2.machine.Free 1 ∧
      (FieldType.object .byte).IsBridged ∧
      Exec.Gives (do
        Exec.toNative (← Exec.ofNative (.bounded 8) (.int 300) (.object .byte)) (.object .byte))
        1 (.start 1 "main") (fun w _ => w = .int 44) c.2 := by
  have hs : Pool.Step Machine.Stands ((bounded 5).sessions (fun _ => "main") fun _ =>
      [.setUp .object], .start [] .standard .standard .sound .sound (.ofVerbosity none)) _ :=
    .thread 1 (.step _ _ _)
  let m := (Scene.start [] .standard .standard .sound .sound (.ofVerbosity none)).machine
  have hp : m.Prepares 1 (m.resolve (Resolving.loadClass · .object)).2 :=
    Machine.prepares_resolve (Resolving.finds_loadClass .object) m
  have hfree := hp.free nofun
  have halive : (m.resolve (Resolving.loadClass · .object)).2.shouldTerminate 1 = false := by
    rw [Machine.shouldTerminate, Machine.record?, hp.threads]
    rfl
  have hT : (FieldType.object .byte).IsBridged := .inr (.inr (by decide +kernel))
  have h := bridge_exact 5 0 [] .standard .standard .sound .sound (.ofVerbosity none)
    (fun _ => "main") (fun _ => [.setUp .object]) (.single hs) (.start 1 "main") halive hfree
    (.object .byte) hT
  refine ⟨_, .single hs, halive, hfree, hT,
    (h.returned 1 (.int 300) (by decide +kernel) trivial).mono fun w _ hw => hw.trans ?_⟩
  decide +kernel

end BytecodeMachine
