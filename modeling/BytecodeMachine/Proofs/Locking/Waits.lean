import BytecodeMachine.Proofs.Alone
import BytecodeMachine.Proofs.Locking
import BytecodeMachine.Proofs.ThreadRecords

namespace BytecodeMachine

variable {o : ObjectId} {i : Nat} {millis : Int64} {nanos : Int32} {s s' : Scene}

theorem Blocker.attempt_notification (o : ObjectId) (i ticket : Nat) (deadline : Option Nat)
    (m : Machine) : (Blocker.notification o i ticket deadline).attempt m =
      if (m.monitorOf o).isNotified ticket then leave o ticket .notified m
      else if m.isInterrupted i || m.shouldTerminate i then
        leave o ticket .interrupted (m.takeInterrupt i).2
      else if passed m deadline then leave o ticket .timedOut (m.takeInterrupt i).2
      else none := by
  have ht := m.shouldTerminate_takeInterrupt i i
  have hd : passed (m.takeInterrupt i).2 deadline = passed m deadline := by
    cases deadline <;> rfl
  have hi : (m.takeInterrupt i).1 = m.isInterrupted i := rfl
  simp only [attempt]
  generalize m.takeInterrupt i = r at ht hd hi ⊢
  obtain ⟨taken, m'⟩ := r
  subst hi
  cases m.isInterrupted i <;> simp_all

def Prog.blocker? {α : Type} : Prog α → Option Blocker
  | .wait b _ => some b
  | _ => none

-- Where a call that waits stands: what it does next, or what it has ended with.
inductive WaitPhase where
  | attaching
  | owning
  | asking
  | timing
  | parking (deadline : Option Nat)
  | waiting (ticket count : Nat) (deadline : Option Nat)
  | retaking (count : Nat) (wake : Wake)
  | closing (wake : Wake)
  | answered (answer : MonitorCall.Answer)

namespace WaitPhase

def next? (o : ObjectId) (i : Nat) (millis : Int64) (nanos : Int32) (m : Machine) :
    WaitPhase → Option (WaitPhase × Machine)
  | attaching => some (owning, m.attachMonitor o)
  | owning =>
      some (if (m.monitorOf o).isHeldBy i then asking
        else answered (.error (.raise (.notHeld .wait))), m)
  | asking =>
      some (if (m.takeInterrupt i).1 then answered (.ok (some .interrupted)) else timing,
        (m.takeInterrupt i).2)
  | timing => some (parking (Prog.deadlineAfter m.clock millis nanos), m)
  | parking deadline =>
      some (waiting (Prog.park o m).1.1 (Prog.park o m).1.2 deadline, (Prog.park o m).2)
  | waiting ticket count deadline =>
      ((Blocker.notification o i ticket deadline).attempt m).map fun r => (retaking count r.1, r.2)
  | retaking count wake =>
      ((Blocker.retake o i count).attempt m).map fun r => (closing wake, r.2)
  | closing wake =>
      some (answered (if m.shouldTerminate i then .error .exit else .ok (some (.ofWake wake))), m)
  | answered _ => none

section Rest

variable (o i millis nanos)

def restClosing (wake : Wake) : Prog MonitorCall.Answer := do
  return if ← Prog.read (·.shouldTerminate i) then .error .exit else .ok (some (.ofWake wake))

def restRetaking (count : Nat) (wake : Wake) : Prog MonitorCall.Answer := do
  let _ ← Prog.await (.retake o i count)
  restClosing i wake

def restWaiting (ticket count : Nat) (deadline : Option Nat) : Prog MonitorCall.Answer := do
  restRetaking o i count (← Prog.await (.notification o i ticket deadline))

def restParking (deadline : Option Nat) : Prog MonitorCall.Answer := do
  let (ticket, count) ← Prog.act (Prog.park o)
  restWaiting o i ticket count deadline

def restTiming : Prog MonitorCall.Answer := do
  restParking o i (← Prog.read fun m => Prog.deadlineAfter m.clock millis nanos)

def restAsking : Prog MonitorCall.Answer := do
  if ← Prog.act (·.takeInterrupt i) then return .ok (some .interrupted)
  restTiming o i millis nanos

def restOwning : Prog MonitorCall.Answer := do
  if ← Prog.read fun m => (m.monitorOf o).isHeldBy i then restAsking o i millis nanos
  else return .error (.raise (.notHeld .wait))

def rest : WaitPhase → Prog MonitorCall.Answer
  | attaching => do
      Prog.update (·.attachMonitor o)
      restOwning o i millis nanos
  | owning => restOwning o i millis nanos
  | asking => restAsking o i millis nanos
  | timing => restTiming o i millis nanos
  | parking deadline => restParking o i deadline
  | waiting ticket count deadline => restWaiting o i ticket count deadline
  | retaking count wake => restRetaking o i count wake
  | closing wake => restClosing i wake
  | answered answer => pure answer

end Rest

theorem rest_attaching (o : ObjectId) (i : Nat) (millis : Int64) (nanos : Int32) :
    (MonitorCall.wait millis nanos).on o i = attaching.rest o i millis nanos := by
  simp only [MonitorCall.on, Prog.waitOn, rest, bind_assoc]
  refine bind_congr fun _ => bind_congr fun held => ?_
  cases held with
  | false => rfl
  | true =>
    simp only [Bool.not_true, Bool.false_eq_true, if_false, if_true, restAsking, bind_assoc]
    refine bind_congr fun interrupted => ?_
    cases interrupted with
    | true => rfl
    | false =>
      simp only [Bool.false_eq_true, if_false, restTiming, restParking, restWaiting, restRetaking,
        restClosing, bind_assoc]
      refine bind_congr fun deadline => bind_congr fun parked => bind_congr fun wake =>
        bind_congr fun _ => bind_congr fun told => ?_
      cases told <;> rfl

theorem next?_of_moves {ph : WaitPhase} {q : Prog MonitorCall.Answer}
    (hm : (ph.rest o i millis nanos).Moves i s q s') :
    ∃ ph' m, ph.next? o i millis nanos s.machine = some (ph', m) ∧
      q = ph'.rest o i millis nanos ∧ s' = s.become m := by
  cases ph with
  | answered r => cases hm
  | waiting ticket count deadline =>
    cases hm with
    | wait next ha => exact ⟨_, _, congrArg (Option.map _) ha, rfl, rfl⟩
  | retaking count wake =>
    cases hm with
    | wait next ha => exact ⟨_, _, congrArg (Option.map _) ha, rfl, rfl⟩
  | owning =>
    cases hm
    refine ⟨_, _, rfl, ?_, rfl⟩
    rw [apply_ite (rest o i millis nanos)]
    rfl
  | asking =>
    cases hm
    refine ⟨_, _, rfl, ?_, rfl⟩
    rw [apply_ite (rest o i millis nanos)]
    rfl
  | _ =>
    cases hm
    exact ⟨_, _, rfl, rfl, rfl⟩

theorem moves_of_next? {ph ph' : WaitPhase} {m : Machine}
    (h : ph.next? o i millis nanos s.machine = some (ph', m)) :
    (ph.rest o i millis nanos).Moves i s (ph'.rest o i millis nanos) (s.become m) := by
  have hm : ∃ q s', (ph.rest o i millis nanos).Moves i s q s' := by
    cases ph with
    | answered r => cases h
    | waiting ticket count deadline =>
      obtain ⟨r, hr, -⟩ := Option.map_eq_some_iff.1 h
      exact ⟨_, _, .wait _ hr⟩
    | retaking count wake =>
      obtain ⟨r, hr, -⟩ := Option.map_eq_some_iff.1 h
      exact ⟨_, _, .wait _ hr⟩
    | _ => exact ⟨_, _, .step _ _ _⟩
  obtain ⟨q, s', hm⟩ := hm
  obtain ⟨ph'', m', h', rfl, rfl⟩ := next?_of_moves hm
  obtain ⟨rfl, rfl⟩ := Prod.mk.inj (Option.some.inj (h.symm.trans h'))
  exact hm

theorem runs_of_next? {ph ph' : WaitPhase} {m : Machine} {c : Prog MonitorCall.Answer × Scene}
    (h : ph.next? o i millis nanos s.machine = some (ph', m))
    (hr : Prog.Runs i (ph'.rest o i millis nanos, s.become m) c) :
    Prog.Runs i (ph.rest o i millis nanos, s) c :=
  .head (moves_of_next? h) hr

theorem runs_waiting (millis : Int64) (nanos : Int32)
    (hp : (s.machine.heap.get? o).isSome) (ho : (s.machine.monitorOf o).owner = some i)
    (hi : s.machine.isInterrupted i = false) :
    ∃ deadline s', Prog.Runs i ((MonitorCall.wait millis nanos).on o i, s)
        ((waiting (s.machine.monitorOf o).nextTicket (s.machine.monitorOf o).count deadline).rest
          o i millis nanos, s') ∧
      (s'.machine.heap.get? o).isSome ∧ s'.machine.monitorOf o = (s.machine.monitorOf o).park ∧
        s'.machine.shouldTerminate i = s.machine.shouldTerminate i := by
  let m1 := s.machine.attachMonitor o
  let m2 := (m1.takeInterrupt i).2
  have h1 : m1.monitorOf o = s.machine.monitorOf o := s.machine.monitorOf_attachMonitor o o
  have h2 : m2.monitorOf o = s.machine.monitorOf o := h1
  have hp2 : (m2.heap.get? o).isSome := (s.machine.isSome_setMonitor o o _).trans hp
  have run : Prog.Runs i (attaching.rest o i millis nanos, s)
      ((waiting (m2.monitorOf o).nextTicket (m2.monitorOf o).count
        (Prog.deadlineAfter m2.clock millis nanos)).rest o i millis nanos,
        s.become (Prog.park o m2).2) := by
    have hn1 : owning.next? o i millis nanos m1 = some (asking, m1) := by
      simp [next?, h1, Monitor.isHeldBy, ho]
    have hn2 : asking.next? o i millis nanos m1 = some (timing, m2) := by
      have : (m1.takeInterrupt i).1 = false := hi
      simp [next?, this, m2]
    exact runs_of_next? rfl <| runs_of_next? hn1 <| runs_of_next? hn2 <| runs_of_next? rfl <|
      runs_of_next? rfl .refl
  rw [rest_attaching]
  rw [h2] at run
  refine ⟨_, _, run, ?_, ?_, ?_⟩
  · exact (m2.isSome_setMonitor o o _).trans hp2
  · exact (Machine.monitorOf_setMonitor hp2 _).trans (congrArg Monitor.park h2)
  · exact m1.shouldTerminate_takeInterrupt i i

end WaitPhase

theorem Prog.IsLast.moves {α : Type} {p q : Prog α} (h : p.IsLast) (hm : p.Moves i s q s') :
    ∃ r, q = .done r := by
  cases hm with
  | step f next => exact h _
  | sign => exact h.elim
  | wait next ha => exact h _

structure PendingCall.Staged (o : ObjectId) (i : Nat) (p : PendingCall) : Prop where
  single : p.call.isWait = false → p.rest = p.call.on o i
  waits : ∀ millis nanos, p.call = .wait millis nanos →
    ∃ ph : WaitPhase, p.rest = ph.rest o i millis nanos

theorem PendingCall.staged_on (call : MonitorCall) (m : Monitor) :
    PendingCall.Staged o i ⟨call, m, call.on o i⟩ where
  single _ := rfl
  waits millis nanos h := by
    cases h
    exact ⟨.attaching, WaitPhase.rest_attaching o i millis nanos⟩

theorem PendingCall.Staged.move {p : PendingCall} {q : Prog MonitorCall.Answer}
    (h : p.Staged o i) (hm : p.rest.Moves i s q s') (hq : q.answer? = none) :
    PendingCall.Staged o i { p with rest := q } where
  single hw := by
    rw [h.single hw] at hm
    obtain ⟨r, rfl⟩ := (MonitorCall.isLast_on hw o i).moves hm
    cases hq
  waits millis nanos hc := by
    obtain ⟨ph, hp⟩ := h.waits millis nanos hc
    rw [hp] at hm
    obtain ⟨ph', m, -, he, -⟩ := WaitPhase.next?_of_moves hm
    exact ⟨ph', he⟩

def Clients.Staged (o : ObjectId) (cs : Clients) : Prop :=
  ∀ i p, (cs i).pending = some p → p.Staged o i

theorem Clients.Staged.step {c c' : Clients × Scene} (h : Clients.Staged o c.1)
    (hs : Clients.Step o c c') : Clients.Staged o c'.1 := by
  cases hs with
  | outside hp hm => exact h
  | call i call hp =>
    intro j p hj
    by_cases hij : j = i
    · subst hij
      simp only [Function.update_self, Option.some.injEq] at hj
      subst hj
      exact PendingCall.staged_on call _
    · simp only [Function.update_of_ne hij] at hj
      exact h j p hj
  | @move cs s s' p q i hp hm =>
    intro j p' hj
    by_cases hij : j = i
    · subst hij
      simp only [Function.update_self, Client.goOn] at hj
      split at hj
      · cases hj
      · rename_i hq
        cases hj
        exact (h j p hp).move hm hq
    · simp only [Function.update_of_ne hij] at hj
      exact h j p' hj

theorem Clients.Staged.run {c c' : Clients × Scene} (h : Clients.Staged o c.1)
    (hr : Clients.Run o c c') : Clients.Staged o c'.1 := by
  induction hr with
  | refl => exact h
  | tail _ hs ih => exact ih.step hs

theorem Prog.Moves.answer?_eq_none {α : Type} {p q : Prog α} (h : p.Moves i s q s') :
    p.answer? = none := by
  cases h <;> rfl

end BytecodeMachine
