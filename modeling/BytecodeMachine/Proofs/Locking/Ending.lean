import BytecodeMachine.Proofs.Locking.Notices

namespace BytecodeMachine

variable {o : ObjectId} {i : Nat} {s s' : Scene}

namespace WaitPhase

variable {millis : Int64} {nanos : Int32} {ph ph' : WaitPhase}
  {Q : MonitorCall.Answer → Scene → Prop}

theorem ends_iff_of_next? {m : Machine}
    (h : ph.next? o i millis nanos s.machine = some (ph', m)) :
    (ph.rest o i millis nanos).Ends i Q s ↔ (ph'.rest o i millis nanos).Ends i Q (s.become m) :=
  Prog.ends_iff_of_moves (moves_of_next? h)

theorem ends_closing {wake : Wake} (ht : s.machine.shouldTerminate i) :
    ((closing wake).rest o i millis nanos).Ends i Q s ↔ Q (.error .exit) s := by
  have hn : (closing wake).next? o i millis nanos s.machine =
      some (answered (.error .exit), s.machine) := by
    simp [next?, ht]
  exact ends_iff_of_next? hn

-- The second loop asks for the lock alone, and never whether the thread is told to end.
theorem ends_retaking {count : Nat} {wake : Wake} (ht : s.machine.shouldTerminate i) :
    ((retaking count wake).rest o i millis nanos).Ends i Q s ↔
      (s.machine.monitorOf o).owner = none ∧ Q (.error .exit) (s.become (s.machine.setMonitor o
        { s.machine.monitorOf o with owner := some i, count := count })) := by
  cases ho : (s.machine.monitorOf o).owner with
  | none =>
    have hn : (retaking count wake).next? o i millis nanos s.machine =
        some (closing wake, s.machine.setMonitor o
          { s.machine.monitorOf o with owner := some i, count := count }) := by
      simp [next?, Blocker.attempt, Monitor.retake?, ho]
    rw [ends_iff_of_next? hn, ends_closing (by exact ht)]
    simp
  | some j =>
    simp only [reduceCtorEq, false_and, iff_false]
    rintro ⟨w, m, ha, -⟩
    simp [Blocker.attempt, Monitor.retake?, ho] at ha

-- The first loop lets a thread go that is told to end.
theorem next?_waiting {ticket count : Nat} {deadline : Option Nat}
    (millis : Int64) (nanos : Int32) (ht : s.machine.shouldTerminate i) :
    ∃ wake m, (waiting ticket count deadline).next? o i millis nanos s.machine =
      some (retaking count wake, m) ∧ m.shouldTerminate i ∧
        m.heap = (s.machine.setMonitor o ((s.machine.monitorOf o).leave ticket)).heap := by
  simp only [next?, Blocker.attempt_notification, ht, Bool.or_true, if_true, Blocker.leave]
  split
  · exact ⟨_, _, rfl, ht, rfl⟩
  · refine ⟨_, _, rfl, ?_, rfl⟩
    simpa using ht

theorem blocks_cases (hb : (ph.rest o i millis nanos).blocker?.isSome) :
    (∃ ticket count deadline, ph = waiting ticket count deadline) ∨
      ∃ count wake, ph = retaking count wake := by
  cases ph with
  | waiting ticket count deadline => exact .inl ⟨_, _, _, rfl⟩
  | retaking count wake => exact .inr ⟨_, _, rfl⟩
  | _ => exact absurd hb Bool.false_ne_true

theorem leaves_waiting {ticket count : Nat} {deadline : Option Nat}
    (ht : s.machine.shouldTerminate i) (ho : (s.machine.heap.get? o).isSome) :
    ∃ wake m, (waiting ticket count deadline).next? o i millis nanos s.machine =
      some (retaking count wake, m) ∧ m.shouldTerminate i ∧ (m.heap.get? o).isSome ∧
        m.monitorOf o = (s.machine.monitorOf o).leave ticket := by
  obtain ⟨wake, m, hn, hm, hh⟩ := next?_waiting millis nanos ht
  refine ⟨wake, m, hn, hm, ?_, ?_⟩
  · rw [hh, s.machine.isSome_setMonitor]
    exact ho
  · rw [Machine.monitorOf, hh]
    exact Machine.monitorOf_setMonitor ho _

theorem ends_of_free (ht : s.machine.shouldTerminate i) (ho : (s.machine.heap.get? o).isSome)
    (hb : (ph.rest o i millis nanos).blocker?.isSome)
    (hf : (s.machine.monitorOf o).owner = none) :
    (ph.rest o i millis nanos).Ends i
      (fun r s' => r = .error .exit ∧ (s'.machine.monitorOf o).isHeldBy i) s := by
  have last {s : Scene} {count : Nat} {wake : Wake} (ht : s.machine.shouldTerminate i)
      (ho : (s.machine.heap.get? o).isSome) (hf : (s.machine.monitorOf o).owner = none) :
      ((retaking count wake).rest o i millis nanos).Ends i
        (fun r s' => r = .error .exit ∧ (s'.machine.monitorOf o).isHeldBy i) s := by
    refine (ends_retaking ht).2 ⟨hf, rfl, ?_⟩
    simp [Scene.become, Machine.monitorOf_setMonitor ho, Monitor.isHeldBy]
  rcases blocks_cases hb with ⟨ticket, count, deadline, rfl⟩ | ⟨count, wake, rfl⟩
  · obtain ⟨wake, m, hn, hm, hp, he⟩ := leaves_waiting ht ho
    rw [ends_iff_of_next? hn]
    exact last hm hp (by simpa [Scene.become, he, Monitor.leave] using hf)
  · exact last ht ho hf

theorem not_ends_of_owned (ht : s.machine.shouldTerminate i)
    (ho : (s.machine.heap.get? o).isSome) (hb : (ph.rest o i millis nanos).blocker?.isSome)
    (hf : (s.machine.monitorOf o).owner ≠ none) : ¬ (ph.rest o i millis nanos).Ends i Q s := by
  rcases blocks_cases hb with ⟨ticket, count, deadline, rfl⟩ | ⟨count, wake, rfl⟩
  · obtain ⟨wake, m, hn, hm, -, he⟩ := leaves_waiting ht ho
    rw [ends_iff_of_next? hn, ends_retaking (by exact hm)]
    intro h
    exact hf (by simpa [Scene.become, he, Monitor.leave] using h.1)
  · rw [ends_retaking ht]
    exact fun h => hf h.1

end WaitPhase

structure Clients.Released (o : ObjectId) (cs : Clients) (s : Scene) : Prop where
  entering : ∀ i p j, (cs i).pending = some p → s.machine.shouldTerminate i → p.call = .enter →
    (s.machine.monitorOf o).owner = some j → j ≠ i →
      p.rest.Ends i (fun r s' => r = .error .exit ∧
        s'.machine.monitorOf o = s.machine.monitorOf o) s
  leaving : ∀ i p thread ticket deadline, (cs i).pending = some p →
    s.machine.shouldTerminate i → p.call.isWait →
    p.rest.blocker? = some (.notification o thread ticket deadline) →
      ∃ q s', p.rest.Moves i s q s' ∧
        s'.machine.monitorOf o = (s.machine.monitorOf o).leave ticket
  waiting : ∀ i p, (cs i).pending = some p → s.machine.shouldTerminate i → p.call.isWait →
    p.rest.blocker?.isSome → (s.machine.monitorOf o).owner = none →
      p.rest.Ends i (fun r s' => r = .error .exit ∧ (s'.machine.monitorOf o).isHeldBy i) s
  held : ∀ i p, (cs i).pending = some p → s.machine.shouldTerminate i → p.call.isWait →
    p.rest.blocker?.isSome → (s.machine.monitorOf o).owner ≠ none →
      ¬ p.rest.Ends i (fun _ _ => True) s

theorem Clients.released_of_run {s : Scene} (hp : (s.machine.heap.get? o).isSome)
    (hf : s.machine.monitorOf o = .free) {cs : Clients} {s' : Scene}
    (hr : Clients.Run o (fun _ => .fresh, s) (cs, s')) : Clients.Released o cs s' := by
  have hs : Clients.Staged o cs := Staged.run (c := (fun _ => .fresh, s))
    (fun i p h => by cases h) hr
  have ho := ((fair_fresh hp hf).run hr).lockable.present
  have phase {i : Nat} {p : PendingCall} (hi : (cs i).pending = some p) (hw : p.call.isWait) :
      ∃ millis nanos, ∃ ph : WaitPhase, p.rest = ph.rest o i millis nanos := by
    cases hc : p.call with
    | wait millis nanos => exact ⟨millis, nanos, (hs i p hi).waits millis nanos hc⟩
    | _ => simp [MonitorCall.isWait, hc] at hw
  constructor
  case entering =>
    intro i p j hi ht hc hj hne
    rw [(hs i p hi).single (by rw [hc]; rfl), hc]
    refine ⟨.terminated, s'.machine, ?_, rfl, rfl⟩
    simp [Blocker.attempt, Monitor.enter?, hj, hne, ht]
  case leaving =>
    intro i p thread ticket deadline hi ht hw hb
    obtain ⟨millis, nanos, ph, he⟩ := phase hi hw
    rw [he] at hb ⊢
    rcases WaitPhase.blocks_cases (by rw [hb]; rfl) with ⟨t, c, d, rfl⟩ | ⟨c, w, rfl⟩
    · cases hb
      obtain ⟨wake, m, hn, -, -, hm⟩ := WaitPhase.leaves_waiting ht ho
      exact ⟨_, _, WaitPhase.moves_of_next? hn, hm⟩
    · cases hb
  case waiting =>
    intro i p hi ht hw hb hn
    obtain ⟨millis, nanos, ph, he⟩ := phase hi hw
    rw [he] at hb ⊢
    exact WaitPhase.ends_of_free ht ho hb hn
  case held =>
    intro i p hi ht hw hb hn
    obtain ⟨millis, nanos, ph, he⟩ := phase hi hw
    rw [he] at hb ⊢
    exact WaitPhase.not_ends_of_owned ht ho hb hn

theorem Clients.released_of_waiting :
    ∃ (s : Scene) (cs : Clients) (s' : Scene) (p : PendingCall),
      Clients.Run ⟨0⟩ (fun _ => .fresh, s) (cs, s') ∧ (cs 1).pending = some p ∧
        p.call.isWait ∧ p.rest.blocker?.isSome ∧ s'.machine.shouldTerminate 1 ∧
        (s'.machine.monitorOf ⟨0⟩).owner = some 2 ∧ Clients.Released ⟨0⟩ cs s' := by
  let c : Class := ⟨.object, none, [], none, default, none, .regular, [], [], []⟩
  let m := Machine.create [] .standard .standard .sound .sound (.ofVerbosity none)
  let s : Scene := ⟨{ m with
    heap := ⟨#[.instanceOf c]⟩
    threads := [(1, { ThreadRecord.start 1 "a" with terminate := true })] }, []⟩
  obtain ⟨w1, h1, hw1, ho1⟩ := Watch.run_enter (o := ⟨0⟩) (w := ⟨fun _ => .fresh, .fresh⟩) (s := s)
    (i := 1) (m := ⟨some 1, 1, [], 0⟩) rfl rfl
  obtain ⟨w2, s2, p, h2, ⟨hp, ho2⟩, ⟨hw, hb⟩, hs, hm, ht⟩ :=
    Watch.run_wait (o := ⟨0⟩) (i := 1)
      (s := s.become (s.machine.setMonitor ⟨0⟩ ⟨some 1, 1, [], 0⟩)) 0 0 hw1 rfl rfl rfl
  have hn : (w2.clients 2).pending = none := by rw [ho2 2 (by decide), ho1 2 (by decide)]; rfl
  obtain ⟨w3, h3, -, ho3⟩ := Watch.run_enter (o := ⟨0⟩) (i := 2) hn (congrArg (·.enter? 2) hm)
  have h4 := Watch.Run.clients ((h1.trans h2).trans h3)
  refine ⟨s, _, _, p, h4, ?_, hw, hb, ht.trans rfl, ?_, released_of_run rfl rfl h4⟩
  · exact (congrArg Client.pending (ho3 1 (by decide))).trans hp
  · exact congrArg Monitor.owner (Machine.monitorOf_setMonitor hs _)

end BytecodeMachine
