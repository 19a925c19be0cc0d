import BytecodeMachine.Proofs.Bridge.Making
import BytecodeMachine.Proofs.Identities.Canonical
import BytecodeMachine.Proofs.Initialization

namespace BytecodeMachine

variable {i n : Nat} {t : Thread} {s : Scene}

theorem Exec.gives_kept (hs : s.machine.Serves t.id) (text : String) :
    (intern (.bounded (n + 8)) text).Gives i t (fun o m => m.interned.get? text = some o ∧
      s.machine.KeepsText m ∧ (∀ q, s.machine.interned.get? text = some q → q = o) ∧
      (s.machine.interned.get? text = none → m.unitsOf o = .ok (Text.units text.toList))) s := by
  refine gives_locked hs fun m1 h1 => gives_read.bind fun found s2 h2 => ?_
  obtain ⟨hfound, h2⟩ := h2
  change s2.machine = m1 at h2
  subst h2
  have unlocked (m : Machine) : m.Prepares t.id m.unlock := Machine.prepares_unlock m
  change found = s2.machine.interned.get? text at hfound
  cases found with
  | some o =>
    have ho := hfound.symm
    refine gives_pure ⟨?_, (h1.trans (unlocked _)).adds.keepsText, fun q hq => ?_, fun hnone => ?_⟩
    · rw [(unlocked _).interned, ho]
    · rw [h1.interned, hq] at ho
      exact Option.some.inj ho
    · rw [h1.interned, hnone] at ho
      cases ho
  | none =>
    refine (gives_newStringOfUnits (hs.continue h1.toContinues) _).bind fun o s3 h3 => ?_
    refine gives_act.mono fun p m h => ?_
    obtain ⟨rfl, rfl⟩ := Prod.ext_iff.1 h
    have hfirst : (s3.machine.keep text o).1 = o := by
      change (s3.machine.interned.get? text).getD o = o
      rw [h3.1.interned, ← hfound, Option.getD_none]
    have hkept : s3.machine.KeepsText (s3.machine.keep text o).2.unlock := by
      intro p x hp _
      rw [(unlocked _).heap]
      exact hp
    rw [hfirst, (unlocked _).interned, Machine.interned_keep, if_pos rfl, h3.1.interned, ← hfound]
    refine ⟨rfl, (h1.adds.trans h3.1).keepsText.trans hkept, fun q hq => ?_, fun _ => hkept.unitsOf h3.2⟩
    rw [h1.interned, hq] at hfound
    cases hfound

theorem Exec.gives_intern (hs : s.machine.Serves t.id) (text : String) :
    (intern (.bounded (n + 8)) text).Gives i t (fun o m => m.interned.get? text = some o ∧
      (s.machine.interned.get? text = none → m.stringValue o = .ok text)) s := by
  refine (gives_kept hs text).mono fun o m h => ⟨h.1, fun hnone => ?_⟩
  rw [Machine.stringValue_of_unitsOf (h.2.2.2 hnone), Text.chars_units, String.ofList_toList]

theorem Engine.identities_canonical (bound : Nat) (libraries : List Library)
    (natives : NativeTable) (settings : Settings) (stdout stderr : Pipe) (journal : Journal)
    {c : Callers Inquiry Answer} {s : Scene}
    (hr : Callers.Run (Exec.ask (bounded bound)) Machine.Abides
      (.idle, .start libraries natives settings stdout stderr journal) (c, s)) :
    Canonical c.replies ∧
    (∀ n o, s.machine.classNameOf? o = some n ↔ s.machine.classObjects.get? n = some o) ∧
    ∀ (t : Thread) (i k : Nat) (text : String), s.machine.shouldTerminate t.id = false →
      s.machine.Free t.id → s.machine.interned.get? text = none →
      (Exec.intern (bounded (k + 8)) text).Gives i t
        (fun o m => m.interned.get? text = some o ∧ m.stringValue o = .ok text) s := by
  have horderly : (Scene.start libraries natives settings stdout stderr journal).machine.Orderly :=
    ⟨⟨libraries, rfl⟩, ClassTable.closed_nil _⟩
  have h := (Callers.registered_idle horderly rfl rfl).run (woven_bounded bound) hr
  refine ⟨h.canonical, h.mirrored.inverse, fun t i k text halive hfree hnone => ?_⟩
  have hs : s.machine.Serves t.id := ⟨h.orderly.libraries, h.orderly.closed, halive, hfree⟩
  exact (Exec.gives_intern hs text).mono fun o m hm => ⟨hm.1, hm.2 hnone⟩

theorem Engine.identities_canonical_of_intern :
    ∃ (c : Callers Inquiry Answer) (s : Scene) (o : ObjectId),
      Callers.Run (Exec.ask (bounded 8)) Machine.Abides
        (.idle, .start [] .standard .standard .sound .sound (.ofVerbosity none)) (c, s) ∧
      c.replies = [⟨1, .intern "a", 0, .ok (.text "a" o)⟩] ∧ Canonical c.replies ∧
      s.machine.stringValue o = .ok "a" := by
  let s0 : Scene := .start [] .standard .standard .sound .sound (.ofVerbosity none)
  let t : Thread := .start 1 "main"
  have h0 := identities_canonical 8 [] .standard .standard .sound .sound (.ofVerbosity none)
    (c := .idle) (s := s0) .refl
  have hfree : s0.machine.Free t.id := fun l hl => by cases hl
  have hgives := h0.2.2 t t.id 0 "a" rfl hfree rfl
  have hasked : (Exec.ask (bounded 8) (.intern "a")).Gives t.id t
      (fun a m => ∃ o, a = .text "a" o ∧ m.stringValue o = .ok "a") s0 :=
    hgives.bind fun o s1 h1 => Exec.gives_pure ⟨o, rfl, h1.2⟩
  obtain ⟨_, _, s1, ⟨-, _, rfl, o, rfl, ho⟩, hrun⟩ :=
    Callers.run_of_ends Machine.Abides (c := .idle) rfl hasked
  have h1 := identities_canonical 8 [] .standard .standard .sound .sound (.ofVerbosity none) hrun
  exact ⟨_, s1, o, hrun, rfl, h1.1, ho⟩

end BytecodeMachine
