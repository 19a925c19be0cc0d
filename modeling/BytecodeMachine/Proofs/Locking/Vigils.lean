import BytecodeMachine.Proofs.Locking.Waits
import BytecodeMachine.Proofs.Locking.Tally

namespace BytecodeMachine

variable {o : ObjectId} {i : Nat} {s s' : Scene}

-- What was seen of one wait: its ticket, how often it put down the interrupt flag of its thread, and
-- whether the flag was ever up.
structure Vigil where
  ticket : Option Nat
  taken : Nat
  flagged : Bool

namespace Vigil

def see (up : Bool) (v : Vigil) : Vigil := { v with flagged := v.flagged || up }

def move (m m' : Monitor) (up up' : Bool) (v : Vigil) : Vigil where
  ticket := v.ticket.or (m'.tickets.find? (· ∉ m.tickets))
  taken := v.taken + if up && !up' then 1 else 0
  flagged := v.flagged || up'

def Left (l : Tally) (m : Monitor) (v : Vigil) : Prop :=
  ∀ t, v.ticket = some t → t ∈ l.arrivals ∧ t ∉ m.tickets

structure Explains (v : Vigil) (marks : List Nat) (up : Bool) (r : MonitorCall.Answer) : Prop where
  notified : r = .ok (some .notified) ↔ ∃ t ∈ marks, v.ticket = some t
  interrupted : r = .ok (some .interrupted) → v.taken = 1
  untouched : r ≠ .ok (some .interrupted) → v.taken = 0 ∧ v.flagged = up

variable {v : Vigil} {l l' : Tally} {m m' : Monitor} {up up' : Bool} {r : MonitorCall.Answer}

theorem find?_news {l l' : List Nat} (h : ∀ t ∈ l', t ∈ l) : l'.find? (· ∉ l) = none := by
  simpa using h

theorem move_of_tickets (h : ∀ t ∈ m'.tickets, t ∈ m.tickets) (v : Vigil) :
    v.move m m' up up' =
      ⟨v.ticket, v.taken + if up && !up' then 1 else 0, v.flagged || up'⟩ := by
  simp only [move, find?_news h, Option.or_none]

theorem ticket_move {t : Nat} (hp : l.Passes l' m m')
    (h : (v.move m m' up up').ticket = some t) : v.ticket = some t ∨ t ∉ l.arrivals := by
  rcases Option.or_eq_some_iff.1 h with hv | ⟨-, hf⟩
  · exact .inl hv
  · have hn : t ∉ m.tickets := by simpa using List.find?_some hf
    exact .inr fun ha => (hp.gone t ha hn).1 (List.mem_of_find?_eq_some hf)

theorem Left.pass (h : v.Left l m) (hp : l.Passes l' m m') : v.Left l' m' := fun t ht =>
  ⟨hp.arrived t (h t ht).1, (hp.gone t (h t ht).1 (h t ht).2).1⟩

theorem Explains.pass (h : v.Explains l.marks up r) (hl : v.Left l m) (hp : l.Passes l' m m') :
    v.Explains l'.marks up r where
  notified := by
    rw [h.notified]
    constructor
    · rintro ⟨t, ht, hv⟩
      exact ⟨t, ((hp.gone t (hl t hv).1 (hl t hv).2).2).2 ht, hv⟩
    · rintro ⟨t, ht, hv⟩
      exact ⟨t, ((hp.gone t (hl t hv).1 (hl t hv).2).2).1 ht, hv⟩
  interrupted := h.interrupted
  untouched := h.untouched

theorem Explains.see (h : v.Explains l.marks up r) (hup : up → up') :
    (v.see up').Explains l.marks up' r where
  notified := h.notified
  interrupted := h.interrupted
  untouched hr := by
    have := h.untouched hr
    cases up <;> simp_all [Vigil.see]

end Vigil

namespace WaitPhase

def Stands (l : Tally) (m : Monitor) (up : Bool) (v : Vigil) : WaitPhase → Prop
  | waiting ticket _ _ => v = ⟨some ticket, 0, up⟩ ∧ ticket ∈ m.tickets
  | retaking _ wake => v.Left l m ∧ v.Explains l.marks up (.ok (some (.ofWake wake)))
  | closing wake => v.Left l m ∧ v.Explains l.marks up (.ok (some (.ofWake wake)))
  | answered r => v.Left l m ∧ v.Explains l.marks up r
  | _ => v = ⟨none, 0, up⟩

theorem Stands.pass {ph : WaitPhase} {l l' : Tally} {m m' : Monitor} {up up' : Bool} {v : Vigil}
    (h : ph.Stands l m up v) (hp : l.Passes l' m m') (hup : up → up')
    (hk : ∀ t ∈ m.tickets, v.ticket = some t → t ∈ m'.tickets) :
    ph.Stands l' m' up' (v.see up') := by
  have hs : (up || up') = up' := by
    cases up <;> simp_all
  cases ph with
  | waiting ticket count deadline =>
    obtain ⟨rfl, hm⟩ := h
    exact ⟨by simp [Vigil.see, hs], hk ticket hm rfl⟩
  | retaking count wake => exact ⟨h.1.pass hp, (h.2.pass h.1 hp).see hup⟩
  | closing wake => exact ⟨h.1.pass hp, (h.2.pass h.1 hp).see hup⟩
  | answered r => exact ⟨h.1.pass hp, (h.2.pass h.1 hp).see hup⟩
  | _ =>
    obtain rfl : v = _ := h
    simp [Stands, Vigil.see, hs]

end WaitPhase

theorem WaitPhase.Stands.arrived {ph : WaitPhase} {l : Tally} {m : Monitor} {up : Bool} {v : Vigil}
    {t : Nat} (h : ph.Stands l m up v) (ha : l.Agrees m) (ht : v.ticket = some t) :
    t ∈ l.arrivals := by
  cases ph with
  | waiting ticket count deadline =>
    obtain ⟨rfl, hm⟩ := h
    cases ht
    exact ha.waiting.subset hm
  | retaking count wake => exact (h.1 t ht).1
  | closing wake => exact (h.1 t ht).1
  | answered r => exact (h.1 t ht).1
  | _ =>
    obtain rfl : v = _ := h
    cases ht

structure Scene.Spares (o : ObjectId) (i : Nat) (l : Tally) (v : Vigil) (s s' : Scene) : Prop where
  passes : l.Passes (l.count (s.machine.monitorOf o) (s'.machine.monitorOf o))
    (s.machine.monitorOf o) (s'.machine.monitorOf o)
  stays : ∀ t ∈ (s.machine.monitorOf o).tickets, v.ticket ≠ some t →
    t ∈ (s'.machine.monitorOf o).tickets
  flags : ∀ j, j ≠ i → s'.machine.isInterrupted j = s.machine.isInterrupted j
  told : ∀ j, s'.machine.shouldTerminate j = s.machine.shouldTerminate j

theorem Machine.monitorOf_actOn {m : Machine} (h : (m.heap.get? o).isSome)
    (f : Monitor → Option Monitor) :
    (m.actOn o f).2.monitorOf o = (f (m.monitorOf o)).getD (m.monitorOf o) := by
  simp only [actOn]
  cases f (m.monitorOf o) with
  | some x => exact monitorOf_setMonitor h x
  | none => exact monitorOf_attachMonitor o o m

theorem Machine.threads_actOn (f : Monitor → Option Monitor) (m : Machine) :
    (m.actOn o f).2.threads = m.threads := by
  simp only [actOn]
  cases f (m.monitorOf o) <;> rfl

namespace Scene.Spares

variable {l : Tally} {v : Vigil}

theorem of_threads (ha : l.Agrees (s.machine.monitorOf o))
    (ht : s'.machine.threads = s.machine.threads)
    (hw : (s'.machine.monitorOf o).tickets = (s.machine.monitorOf o).tickets)
    (hm : ∀ t ∈ (s.machine.monitorOf o).marked, t ∈ (s'.machine.monitorOf o).marked)
    (hn : (s'.machine.monitorOf o).nextTicket = (s.machine.monitorOf o).nextTicket) :
    Scene.Spares o i l v s s' where
  passes := ha.mark hw hm hn
  stays _ h _ := hw ▸ h
  flags j _ := Machine.isInterrupted_of_threads ht j
  told j := Machine.shouldTerminate_of_threads ht j

theorem of_waiters (ha : l.Agrees (s.machine.monitorOf o))
    (ht : s'.machine.threads = s.machine.threads)
    (hw : (s'.machine.monitorOf o).waiters = (s.machine.monitorOf o).waiters)
    (hn : (s'.machine.monitorOf o).nextTicket = (s.machine.monitorOf o).nextTicket) :
    Scene.Spares o i l v s s' :=
  of_threads ha ht (by simp only [Monitor.tickets, hw])
    (by simp only [Monitor.marked, hw, imp_self, implies_true]) hn

end Scene.Spares

theorem MonitorCall.moves_notify {all : Bool} {q : Prog MonitorCall.Answer}
    (hp : (s.machine.heap.get? o).isSome) (hh : (s.machine.monitorOf o).isHeldBy i)
    (hm : ((MonitorCall.notify all).on o i).Moves i s q s') :
    q = .done (.ok none) ∧ s'.machine.monitorOf o = (s.machine.monitorOf o).mark all := by
  have hn := Monitor.notify?_eq_mark hh all
  cases hm
  refine ⟨?_, ?_⟩
  · simp only [Machine.actOn, hn]
    rfl
  · refine (Machine.monitorOf_actOn hp _).trans ?_
    simp only [hn, Option.getD_some]

theorem MonitorCall.waiters_of_moves {c : MonitorCall} {q : Prog MonitorCall.Answer}
    (hc : c.isWait = false) (hp : (s.machine.heap.get? o).isSome)
    (hn : ∀ all, c = .notify all → (s.machine.monitorOf o).isHeldBy i = false)
    (hm : (c.on o i).Moves i s q s') :
    s'.machine.threads = s.machine.threads ∧
      (s'.machine.monitorOf o).waiters = (s.machine.monitorOf o).waiters ∧
      (s'.machine.monitorOf o).nextTicket = (s.machine.monitorOf o).nextTicket := by
  cases c with
  | wait => cases hc
  | enter =>
    cases hm with
    | @wait b next s w m h =>
      simp only [Blocker.attempt] at h
      split at h
      · rename_i x hx
        cases h
        have hw : x.waiters = (s.machine.monitorOf o).waiters ∧
            x.nextTicket = (s.machine.monitorOf o).nextTicket := by
          unfold Monitor.enter? at hx
          split at hx
          · cases hx
            exact ⟨rfl, rfl⟩
          · split at hx <;> cases hx
            exact ⟨rfl, rfl⟩
        have he := Machine.monitorOf_setMonitor hp x
        exact ⟨rfl, (congrArg _ he).trans hw.1, (congrArg _ he).trans hw.2⟩
      · split at h
        · cases h
          exact ⟨rfl, rfl, rfl⟩
        · cases h
  | exit =>
    cases hm
    have he := Machine.monitorOf_actOn hp (·.exit? i true)
    have hw (x : Monitor) : ((x.exit? i true).getD x).waiters = x.waiters ∧
        ((x.exit? i true).getD x).nextTicket = x.nextTicket := by
      unfold Monitor.exit?
      split <;> exact ⟨rfl, rfl⟩
    exact ⟨Machine.threads_actOn _ _, (congrArg _ he).trans (hw _).1,
      (congrArg _ he).trans (hw _).2⟩
  | notify all =>
    cases hm
    have hf := Monitor.notify?_eq_none (hn all rfl) all
    have he := Machine.monitorOf_actOn hp (·.notify? i all)
    rw [hf, Option.getD_none] at he
    exact ⟨Machine.threads_actOn _ _, congrArg _ he, congrArg _ he⟩

theorem MonitorCall.spares_single {c : MonitorCall} {q : Prog MonitorCall.Answer} {l : Tally}
    (v : Vigil) (hc : c.isWait = false) (hp : (s.machine.heap.get? o).isSome)
    (ha : l.Agrees (s.machine.monitorOf o)) (hm : (c.on o i).Moves i s q s') :
    Scene.Spares o i l v s s' := by
  by_cases hn : ∃ all, c = .notify all ∧ (s.machine.monitorOf o).isHeldBy i
  · obtain ⟨all, rfl, hh⟩ := hn
    have he := (moves_notify hp hh hm).2
    cases hm
    refine .of_threads ha (Machine.threads_actOn _ _) ?_ ?_ ?_
    · rw [he, Monitor.tickets_mark]
    · rw [he]
      intro t ht
      cases all with
      | true =>
        rw [Monitor.marked_mark_all]
        exact (Monitor.marked_sublist _).subset ht
      | false => exact (Monitor.mem_marked_mark_first ha.tickets_increasing).2 (.inl ht)
    · rw [he]
      rfl
  · have hw := waiters_of_moves hc hp (fun all h => Bool.eq_false_iff.2 fun hh => hn ⟨all, h, hh⟩) hm
    exact .of_waiters ha hw.1 hw.2.1 hw.2.2

namespace WaitPhase

variable {ph ph' : WaitPhase} {millis : Int64} {nanos : Int32} {m : Machine} {l : Tally} {v : Vigil}

theorem Stands.stay (ha : l.Agrees (s.machine.monitorOf o))
    (h : ph.Stands l (s.machine.monitorOf o) (s.machine.isInterrupted i) v)
    (ht : m.threads = s.machine.threads)
    (hw : (m.monitorOf o).waiters = (s.machine.monitorOf o).waiters)
    (hn : (m.monitorOf o).nextTicket = (s.machine.monitorOf o).nextTicket) :
    Scene.Spares o i l v s (s.become m) ∧
      ph.Stands (l.count (s.machine.monitorOf o) (m.monitorOf o)) (m.monitorOf o)
        (m.isInterrupted i) (v.move (s.machine.monitorOf o) (m.monitorOf o)
          (s.machine.isInterrupted i) (m.isInterrupted i)) := by
  have hs : Scene.Spares o i l v s (s.become m) := .of_waiters ha ht hw hn
  have hk : (m.monitorOf o).tickets = (s.machine.monitorOf o).tickets := by
    simp only [Monitor.tickets, hw]
  have hi := Machine.isInterrupted_of_threads ht i
  have hv : v.move (s.machine.monitorOf o) (m.monitorOf o) (s.machine.isInterrupted i)
      (m.isInterrupted i) = v.see (m.isInterrupted i) := by
    rw [Vigil.move_of_tickets (by simp [hk]), hi]
    simp [Vigil.see]
  refine ⟨hs, ?_⟩
  rw [hv]
  exact h.pass hs.passes (by simp [hi]) fun _ h _ => hk.symm ▸ h

theorem Stands.ask (ha : l.Agrees (s.machine.monitorOf o))
    (h : asking.Stands l (s.machine.monitorOf o) (s.machine.isInterrupted i) v)
    (hn : asking.next? o i millis nanos s.machine = some (ph', m)) :
    Scene.Spares o i l v s (s.become m) ∧
      ph'.Stands (l.count (s.machine.monitorOf o) (m.monitorOf o)) (m.monitorOf o)
        (m.isInterrupted i) (v.move (s.machine.monitorOf o) (m.monitorOf o)
          (s.machine.isInterrupted i) (m.isInterrupted i)) := by
  obtain rfl : v = _ := h
  cases hn
  refine ⟨⟨ha.mark rfl (fun _ h => h) rfl, fun _ h _ => h,
    fun j hj => Machine.isInterrupted_takeInterrupt_of_ne hj _, fun j => by simp [Scene.become]⟩, ?_⟩
  rw [Machine.isInterrupted_takeInterrupt_self, Machine.monitorOf_takeInterrupt,
    Vigil.move_of_tickets fun _ h => h]
  have hi : (s.machine.takeInterrupt i).1 = s.machine.isInterrupted i := rfl
  rw [hi]
  cases s.machine.isInterrupted i with
  | true => exact ⟨fun t ht => (by cases ht), (by simp), fun _ => rfl, fun hr => absurd rfl hr⟩
  | false => rfl

theorem Stands.park {deadline : Option Nat} (hp : (s.machine.heap.get? o).isSome)
    (ha : l.Agrees (s.machine.monitorOf o))
    (h : (parking deadline).Stands l (s.machine.monitorOf o) (s.machine.isInterrupted i) v)
    (hn : (parking deadline).next? o i millis nanos s.machine = some (ph', m)) :
    Scene.Spares o i l v s (s.become m) ∧
      ph'.Stands (l.count (s.machine.monitorOf o) (m.monitorOf o)) (m.monitorOf o)
        (m.isInterrupted i) (v.move (s.machine.monitorOf o) (m.monitorOf o)
          (s.machine.isInterrupted i) (m.isInterrupted i)) := by
  obtain rfl : v = _ := h
  cases hn
  have hm : (Prog.park o s.machine).2.monitorOf o = (s.machine.monitorOf o).park :=
    Machine.monitorOf_setMonitor hp _
  have hi : (Prog.park o s.machine).2.isInterrupted i = s.machine.isInterrupted i := rfl
  have hf : (s.machine.monitorOf o).park.tickets.find? (· ∉ (s.machine.monitorOf o).tickets) =
      some (s.machine.monitorOf o).nextTicket := by
    have hk : (s.machine.monitorOf o).nextTicket ∉ (s.machine.monitorOf o).tickets :=
      fun hk => ha.next_not_mem (ha.waiting.subset hk)
    rw [Monitor.tickets_park, List.find?_append, Vigil.find?_news fun _ h => h]
    simp [hk]
  have hw (t : Nat) (h : t ∈ (s.machine.monitorOf o).tickets) :
      t ∈ (s.machine.monitorOf o).park.tickets := by
    rw [Monitor.tickets_park]
    exact List.mem_append_left _ h
  refine ⟨⟨?_, ?_, fun _ _ => rfl, fun _ => rfl⟩, ?_⟩
  · exact hm.symm ▸ ha.park
  · exact fun t h _ => hm.symm ▸ hw t h
  · rw [hm, hi]
    refine ⟨?_, ?_⟩
    · simp only [Vigil.move, hf]
      simp [Prog.park]
    · rw [Monitor.tickets_park]
      exact List.mem_append_right _ (List.mem_singleton_self _)

theorem Stands.leave {ticket count : Nat} {w : Wake} (ha : l.Agrees (s.machine.monitorOf o))
    (hk : ticket ∈ (s.machine.monitorOf o).tickets)
    (hm : m.monitorOf o = (s.machine.monitorOf o).leave ticket)
    (hf : ∀ j, j ≠ i → m.isInterrupted j = s.machine.isInterrupted j)
    (hd : ∀ j, m.shouldTerminate j = s.machine.shouldTerminate j)
    (hn : WaitStatus.ofWake w = .notified ↔ ticket ∈ (s.machine.monitorOf o).marked)
    (hi : WaitStatus.ofWake w = .interrupted ↔
      s.machine.isInterrupted i = true ∧ m.isInterrupted i = false) :
    Scene.Spares o i l ⟨some ticket, 0, s.machine.isInterrupted i⟩ s (s.become m) ∧
      (retaking count w).Stands (l.count (s.machine.monitorOf o) (m.monitorOf o))
        (m.monitorOf o) (m.isInterrupted i)
        (Vigil.move (s.machine.monitorOf o) (m.monitorOf o) (s.machine.isInterrupted i)
          (m.isInterrupted i) ⟨some ticket, 0, s.machine.isInterrupted i⟩) := by
  have hp : l.Passes (l.count (s.machine.monitorOf o) (m.monitorOf o)) (s.machine.monitorOf o)
      (m.monitorOf o) := hm.symm ▸ ha.leave ticket
  have hl : (l.count (s.machine.monitorOf o) (m.monitorOf o)).marks = l.marks :=
    hm.symm ▸ l.marks_count_leave _ ticket
  have ht (t : Nat) : t ∈ (m.monitorOf o).tickets ↔
      t ∈ (s.machine.monitorOf o).tickets ∧ t ≠ ticket := by
    rw [hm, Monitor.tickets_leave, List.mem_filter, decide_eq_true_iff]
  rw [Vigil.move_of_tickets fun t h => ((ht t).1 h).1]
  refine ⟨⟨hp, fun t h hne => ?_, hf, hd⟩, ?_, ?_, ?_, ?_⟩
  · exact (ht t).2 ⟨h, fun he => hne (congrArg some he.symm)⟩
  · rintro t ⟨⟩
    exact ⟨hp.arrived _ (ha.waiting.subset hk), fun h => ((ht _).1 h).2 rfl⟩
  · simp only [Except.ok.injEq, Option.some.injEq, hn, hl, exists_eq_right']
    exact ha.marked ticket hk
  · simp only [Except.ok.injEq, Option.some.injEq, hi]
    rintro ⟨hu, hd⟩
    simp [hu, hd]
  · simp only [ne_eq, Except.ok.injEq, Option.some.injEq, hi]
    intro hn
    cases hu : s.machine.isInterrupted i <;> simp_all

theorem Stands.wake {ticket count : Nat} {deadline : Option Nat}
    (hp : (s.machine.heap.get? o).isSome) (ha : l.Agrees (s.machine.monitorOf o))
    (ht : s.machine.shouldTerminate i = false)
    (h : (waiting ticket count deadline).Stands l (s.machine.monitorOf o)
      (s.machine.isInterrupted i) v)
    (hn : (waiting ticket count deadline).next? o i millis nanos s.machine = some (ph', m)) :
    Scene.Spares o i l v s (s.become m) ∧
      ph'.Stands (l.count (s.machine.monitorOf o) (m.monitorOf o)) (m.monitorOf o)
        (m.isInterrupted i) (v.move (s.machine.monitorOf o) (m.monitorOf o)
          (s.machine.isInterrupted i) (m.isInterrupted i)) := by
  obtain ⟨rfl, hk⟩ := h
  have he := Machine.monitorOf_setMonitor hp ((s.machine.monitorOf o).leave ticket)
  have he' := Machine.monitorOf_setMonitor (m := (s.machine.takeInterrupt i).2) hp
    ((s.machine.monitorOf o).leave ticket)
  have hf (j : Nat) (hj : j ≠ i) : (s.machine.takeInterrupt i).2.isInterrupted j =
      s.machine.isInterrupted j := Machine.isInterrupted_takeInterrupt_of_ne hj _
  have hd (j : Nat) : (s.machine.takeInterrupt i).2.shouldTerminate j =
      s.machine.shouldTerminate j := Machine.shouldTerminate_takeInterrupt j i _
  have hu : (s.machine.takeInterrupt i).2.isInterrupted i = false :=
    Machine.isInterrupted_takeInterrupt_self i _
  simp only [next?, Blocker.attempt_notification, ht, Bool.or_false, Blocker.leave,
    Monitor.isNotified_iff] at hn
  split at hn
  · rename_i hm
    cases hn
    refine Stands.leave ha hk he (fun _ _ => rfl) (fun _ => rfl) (iff_of_true rfl hm) ?_
    simp [WaitStatus.ofWake]
  rename_i hm
  split at hn
  · rename_i hi
    cases hn
    refine Stands.leave ha hk he' hf hd (by simpa [WaitStatus.ofWake] using hm) ?_
    simp [WaitStatus.ofWake, hi, hu]
  rename_i hi
  split at hn
  · cases hn
    refine Stands.leave ha hk he' hf hd (by simpa [WaitStatus.ofWake] using hm) ?_
    simp [WaitStatus.ofWake, hi]
  · cases hn

theorem Stands.move (hp : (s.machine.heap.get? o).isSome)
    (ha : l.Agrees (s.machine.monitorOf o)) (ht : s.machine.shouldTerminate i = false)
    (h : ph.Stands l (s.machine.monitorOf o) (s.machine.isInterrupted i) v)
    (hn : ph.next? o i millis nanos s.machine = some (ph', m)) :
    Scene.Spares o i l v s (s.become m) ∧
      ph'.Stands (l.count (s.machine.monitorOf o) (m.monitorOf o)) (m.monitorOf o)
        (m.isInterrupted i) (v.move (s.machine.monitorOf o) (m.monitorOf o)
          (s.machine.isInterrupted i) (m.isInterrupted i)) := by
  cases ph with
  | attaching =>
    cases hn
    have he := s.machine.monitorOf_attachMonitor o o
    exact h.stay ha rfl (congrArg _ he) (congrArg _ he)
  | owning =>
    cases hn
    have hs := h.stay ha rfl rfl rfl
    refine ⟨hs.1, ?_⟩
    split
    · exact hs.2
    · have hv : v.move _ _ _ _ = _ := hs.2
      rw [hv]
      exact ⟨fun t ht => (by cases ht), (by simp), (by simp), fun _ => ⟨rfl, rfl⟩⟩
  | asking => exact h.ask ha hn
  | timing =>
    cases hn
    exact h.stay ha rfl rfl rfl
  | parking deadline => exact h.park hp ha hn
  | waiting ticket count deadline => exact h.wake hp ha ht hn
  | retaking count wake =>
    obtain ⟨r, hr, he⟩ := Option.map_eq_some_iff.1 hn
    cases he
    obtain ⟨x, hx, rfl⟩ := Option.map_eq_some_iff.1 hr
    have hm := Machine.monitorOf_setMonitor hp x
    have hw : x.waiters = (s.machine.monitorOf o).waiters ∧
        x.nextTicket = (s.machine.monitorOf o).nextTicket := by
      unfold Monitor.retake? at hx
      split at hx <;> cases hx
      exact ⟨rfl, rfl⟩
    have hs := h.stay (m := s.machine.setMonitor o x) ha rfl ((congrArg _ hm).trans hw.1)
      ((congrArg _ hm).trans hw.2)
    exact hs
  | closing wake =>
    cases hn
    rw [ht]
    exact h.stay ha rfl rfl rfl
  | answered r => cases hn

end WaitPhase

end BytecodeMachine
