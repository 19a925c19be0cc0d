import BytecodeMachine.Proofs.Locking.Vigils

namespace BytecodeMachine

variable {o : ObjectId} {i : Nat} {s s' : Scene}

structure Return where
  vigil : Vigil
  answer : MonitorCall.Answer
  flagged : Bool

structure Ledger where
  tally : Tally
  vigils : Nat → Vigil
  returns : List Return

namespace Ledger

def fresh : Ledger := ⟨⟨[], []⟩, fun _ => ⟨none, 0, false⟩, []⟩

def see (m : Machine) (l : Ledger) : Ledger :=
  { l with vigils := fun j => (l.vigils j).see (m.isInterrupted j) }

def call (i : Nat) (m : Machine) (l : Ledger) : Ledger :=
  { l with vigils := Function.update l.vigils i ⟨none, 0, m.isInterrupted i⟩ }

def vigilOf (l : Ledger) (o : ObjectId) (i : Nat) (m m' : Machine) : Vigil :=
  (l.vigils i).move (m.monitorOf o) (m'.monitorOf o) (m.isInterrupted i) (m'.isInterrupted i)

def move (o : ObjectId) (i : Nat) (p : PendingCall) (q : Prog MonitorCall.Answer)
    (m m' : Machine) (l : Ledger) : Ledger where
  tally := l.tally.count (m.monitorOf o) (m'.monitorOf o)
  vigils := Function.update (l.see m').vigils i (l.vigilOf o i m m')
  returns :=
    match p.call.isWait, q.answer? with
    | true, some r => ⟨l.vigilOf o i m m', r, m'.isInterrupted i⟩ :: l.returns
    | _, _ => l.returns

end Ledger

structure Watch where
  clients : Clients
  ledger : Ledger

-- Calls and moves as before, with what is seen of them. No thread is told to end, and the interrupt
-- flag of a thread that waits is not put down by others.
inductive Watch.Step (o : ObjectId) : Watch × Scene → Watch × Scene → Prop
  | call {w : Watch} {s : Scene} (i : Nat) (call : MonitorCall)
      (h : (w.clients i).pending = none) :
      Step o (w, s) (⟨Function.update w.clients i
        { w.clients i with pending := some ⟨call, s.machine.monitorOf o, call.on o i⟩ },
        w.ledger.call i s.machine⟩, s)
  | move {w : Watch} {s s' : Scene} {p : PendingCall} {q : Prog MonitorCall.Answer} (i : Nat)
      (hp : (w.clients i).pending = some p) (hm : p.rest.Moves i s q s') :
      Step o (w, s) (⟨Function.update w.clients i ((w.clients i).goOn p q),
        w.ledger.move o i p q s.machine s'.machine⟩, s')
  | outside {w : Watch} {s : Scene} {m : Machine}
      (hp : (s.machine.heap.get? o).isSome → (m.heap.get? o).isSome)
      (hm : m.monitorOf o = s.machine.monitorOf o) (ht : ∀ j, m.shouldTerminate j = false)
      (hi : ∀ j, (w.clients j).isWaiting → s.machine.isInterrupted j → m.isInterrupted j) :
      Step o (w, s) (⟨w.clients, w.ledger.see m⟩, s.become m)

abbrev Watch.Run (o : ObjectId) : Watch × Scene → Watch × Scene → Prop :=
  Relation.ReflTransGen (Watch.Step o)

theorem Watch.Step.clients {c c' : Watch × Scene} (h : Watch.Step o c c') :
    Clients.Step o (c.1.clients, c.2) (c'.1.clients, c'.2) := by
  cases h with
  | call i call h => exact .call i call h
  | move i hp hm => exact .move i hp hm
  | outside hp hm => exact .outside hp hm

theorem Watch.Run.clients {c c' : Watch × Scene} (h : Watch.Run o c c') :
    Clients.Run o (c.1.clients, c.2) (c'.1.clients, c'.2) :=
  h.lift (fun c : Watch × Scene => (c.1.clients, c.2)) fun _ _ hs => hs.clients

structure Watch.Holds (w : Watch) (i t : Nat) : Prop where
  waits : (w.clients i).isWaiting
  ticket : (w.ledger.vigils i).ticket = some t

structure Watch.Kept (o : ObjectId) (w : Watch) (s : Scene) : Prop where
  calm : ∀ j, s.machine.shouldTerminate j = false
  agrees : w.ledger.tally.Agrees (s.machine.monitorOf o)
  waits : ∀ i p millis nanos, (w.clients i).pending = some p → p.call = .wait millis nanos →
    ∃ ph : WaitPhase, p.rest = ph.rest o i millis nanos ∧
      ph.Stands w.ledger.tally (s.machine.monitorOf o) (s.machine.isInterrupted i)
        (w.ledger.vigils i)
  apart : ∀ i j t, w.Holds i t → w.Holds j t → i = j
  away : ∀ i r t, w.Holds i t → r ∈ w.ledger.returns → r.vigil.ticket ≠ some t
  distinct : w.ledger.returns.Pairwise fun r r' =>
    ∀ t, r.vigil.ticket = some t → r'.vigil.ticket ≠ some t
  returned : ∀ r ∈ w.ledger.returns, r.vigil.Left w.ledger.tally (s.machine.monitorOf o) ∧
    r.vigil.Explains w.ledger.tally.marks r.flagged r.answer

theorem Tally.Agrees.passes_refl {l : Tally} {m : Monitor} (h : l.Agrees m) : l.Passes l m m :=
  ⟨h, fun _ h => h, fun _ _ h => ⟨h, Iff.rfl⟩⟩

theorem WaitPhase.answer?_rest {ph : WaitPhase} {millis : Int64} {nanos : Int32}
    {r : MonitorCall.Answer} :
    (ph.rest o i millis nanos).answer? = some r ↔ ph = .answered r := by
  cases ph with
  | answered r' => exact Option.some_inj.trans (by rw [answered.injEq])
  | _ => exact iff_of_false (by rintro ⟨⟩) (by rintro ⟨⟩)

theorem Ledger.returns_move {p : PendingCall} (hw : p.call.isWait = true) (ph : WaitPhase)
    (millis : Int64) (nanos : Int32) (o : ObjectId) (i : Nat) (m m' : Machine) (l : Ledger) :
    (l.move o i p (ph.rest o i millis nanos) m m').returns = l.returns ∨
      ∃ r, ph = .answered r ∧ (l.move o i p (ph.rest o i millis nanos) m m').returns =
        ⟨l.vigilOf o i m m', r, m'.isInterrupted i⟩ :: l.returns := by
  simp only [Ledger.move, hw]
  cases hq : (ph.rest o i millis nanos).answer? with
  | none => exact .inl rfl
  | some r => exact .inr ⟨r, WaitPhase.answer?_rest.1 hq, rfl⟩

theorem Client.isWaiting_iff {c : Client} :
    c.isWaiting ↔ ∃ p millis nanos, c.pending = some p ∧ p.call = .wait millis nanos := by
  simp only [isWaiting, Option.any_eq_true]
  refine exists_congr fun p => ?_
  obtain ⟨call, before, rest⟩ := p
  cases call <;> simp [MonitorCall.isWait]

namespace Watch.Kept

variable {w : Watch} {p : PendingCall}

theorem arrived (h : Watch.Kept o w s) {t : Nat} (ht : w.Holds i t) :
    t ∈ w.ledger.tally.arrivals := by
  obtain ⟨p, millis, nanos, hp, hc⟩ := Client.isWaiting_iff.1 ht.waits
  obtain ⟨ph, -, hs⟩ := h.waits i p millis nanos hp hc
  exact hs.arrived h.agrees ht.ticket

theorem call (h : Watch.Kept o w s) (call : MonitorCall) :
    Watch.Kept o ⟨Function.update w.clients i
      { w.clients i with pending := some ⟨call, s.machine.monitorOf o, call.on o i⟩ },
      w.ledger.call i s.machine⟩ s := by
  have hh {j t : Nat} (hj : Watch.Holds ⟨Function.update w.clients i { w.clients i with
      pending := some ⟨call, s.machine.monitorOf o, call.on o i⟩ },
      w.ledger.call i s.machine⟩ j t) : w.Holds j t := by
    obtain ⟨hw, ht⟩ := hj
    by_cases hji : j = i
    · subst hji
      simp [Ledger.call] at ht
    · simp only [Ledger.call, Function.update_of_ne hji] at hw ht
      exact ⟨hw, ht⟩
  constructor
  case calm => exact h.calm
  case agrees => exact h.agrees
  case waits =>
    intro j p millis nanos hp hc
    by_cases hji : j = i
    · subst hji
      simp only [Function.update_self, Option.some.injEq] at hp
      subst hp
      obtain rfl : call = _ := hc
      refine ⟨.attaching, WaitPhase.rest_attaching o j millis nanos, ?_⟩
      simp [WaitPhase.Stands, Ledger.call]
    · simp only [Function.update_of_ne hji, Ledger.call] at hp ⊢
      exact h.waits j p millis nanos hp hc
  case apart => exact fun j k t hj hk => h.apart j k t (hh hj) (hh hk)
  case away => exact fun j r t hj hr => h.away j r t (hh hj) hr
  case distinct => exact h.distinct
  case returned => exact h.returned

theorem outside (h : Watch.Kept o w s) {m : Machine}
    (hm : m.monitorOf o = s.machine.monitorOf o) (ht : ∀ j, m.shouldTerminate j = false)
    (hi : ∀ j, (w.clients j).isWaiting → s.machine.isInterrupted j → m.isInterrupted j) :
    Watch.Kept o ⟨w.clients, w.ledger.see m⟩ (s.become m) where
  calm := ht
  agrees := by
    show w.ledger.tally.Agrees (m.monitorOf o)
    exact hm ▸ h.agrees
  waits j p millis nanos hp hc := by
    obtain ⟨ph, he, hs⟩ := h.waits j p millis nanos hp hc
    have hw := Client.isWaiting_iff.2 ⟨p, millis, nanos, hp, hc⟩
    have hpass := hs.pass h.agrees.passes_refl (hi j hw) fun _ h _ => h
    exact ⟨ph, he, hm ▸ hpass⟩
  apart j k t hj hk := h.apart j k t ⟨hj.waits, hj.ticket⟩ ⟨hk.waits, hk.ticket⟩
  away j r t hj hr := h.away j r t ⟨hj.waits, hj.ticket⟩ hr
  distinct := h.distinct
  returned := by
    show ∀ r ∈ w.ledger.returns, r.vigil.Left w.ledger.tally (m.monitorOf o) ∧ _
    exact hm ▸ h.returned

theorem spares (h : Watch.Kept o w s) {v : Vigil} (hs : Scene.Spares o i w.ledger.tally v s s')
    (hv : ∀ j t, j ≠ i → w.Holds j t → v.ticket ≠ some t) {j : Nat} {millis : Int64}
    {nanos : Int32} (hj : j ≠ i) (hp : (w.clients j).pending = some p)
    (hc : p.call = .wait millis nanos) :
    ∃ ph : WaitPhase, p.rest = ph.rest o j millis nanos ∧
      ph.Stands (w.ledger.tally.count (s.machine.monitorOf o) (s'.machine.monitorOf o))
        (s'.machine.monitorOf o) (s'.machine.isInterrupted j)
        ((w.ledger.vigils j).see (s'.machine.isInterrupted j)) := by
  obtain ⟨ph, he, hst⟩ := h.waits j p millis nanos hp hc
  have hw := Client.isWaiting_iff.2 ⟨p, millis, nanos, hp, hc⟩
  refine ⟨ph, he, hst.pass hs.passes (by simp [hs.flags j hj]) fun t ht htk => ?_⟩
  exact hs.stays t ht (hv j t hj ⟨hw, htk⟩)

theorem passed (h : Watch.Kept o w s) {v : Vigil} (hs : Scene.Spares o i w.ledger.tally v s s')
    {r : Return} (hr : r ∈ w.ledger.returns) :
    r.vigil.Left (w.ledger.tally.count (s.machine.monitorOf o) (s'.machine.monitorOf o))
        (s'.machine.monitorOf o) ∧
      r.vigil.Explains (w.ledger.tally.count (s.machine.monitorOf o)
        (s'.machine.monitorOf o)).marks r.flagged r.answer := by
  obtain ⟨hl, he⟩ := h.returned r hr
  exact ⟨hl.pass hs.passes, he.pass hl hs.passes⟩

theorem moveSingle {q : Prog MonitorCall.Answer} (h : Watch.Kept o w s)
    (ho : (s.machine.heap.get? o).isSome) (hs : p.Staged o i) (hw : p.call.isWait = false)
    (hm : p.rest.Moves i s q s') :
    Watch.Kept o ⟨Function.update w.clients i ((w.clients i).goOn p q),
      w.ledger.move o i p q s.machine s'.machine⟩ s' := by
  rw [hs.single hw] at hm
  have hsp := MonitorCall.spares_single ⟨none, 0, false⟩ hw ho h.agrees hm
  obtain ⟨r, rfl⟩ := (MonitorCall.isLast_on hw o i).moves hm
  have hn : ((w.clients i).goOn p (.done r)).pending = none := rfl
  have hh {j t : Nat} (hj : Watch.Holds ⟨Function.update w.clients i ((w.clients i).goOn p
      (.done r)), w.ledger.move o i p (.done r) s.machine s'.machine⟩ j t) :
      w.Holds j t := by
    obtain ⟨hw, ht⟩ := hj
    by_cases hji : j = i
    · subst hji
      simp [Client.isWaiting, hn] at hw
    · simp only [Ledger.move, Ledger.see, Function.update_of_ne hji] at hw ht
      exact ⟨hw, ht⟩
  have hr : (w.ledger.move o i p (.done r) s.machine s'.machine).returns = w.ledger.returns := by
    simp only [Ledger.move, hw]
  constructor
  case calm => exact fun j => (hsp.told j).trans (h.calm j)
  case agrees => exact hsp.passes.agrees
  case waits =>
    intro j p' millis nanos hp hc
    by_cases hji : j = i
    · subst hji
      simp only [Function.update_self, hn] at hp
      cases hp
    · simp only [Function.update_of_ne hji, Ledger.move, Ledger.see] at hp ⊢
      exact h.spares hsp (by simp) hji hp hc
  case apart => exact fun j k t hj hk => h.apart j k t (hh hj) (hh hk)
  case away => exact fun j r t hj hi => h.away j r t (hh hj) (hr ▸ hi)
  case distinct => exact hr.symm ▸ h.distinct
  case returned => exact fun r hi => h.passed hsp (hr ▸ hi)

theorem unreturned (h : Watch.Kept o w s) {r : Return} {t : Nat} (hr : r ∈ w.ledger.returns)
    (ht : t ∉ w.ledger.tally.arrivals) : r.vigil.ticket ≠ some t :=
  fun hv => ht (((h.returned r hr).1 t hv).1)

section Waiting

variable {m : Machine} {ph : WaitPhase} {millis : Int64} {nanos : Int32} {t : Nat}

theorem holds_or_new (hi : (w.clients i).isWaiting)
    (hsp : Scene.Spares o i w.ledger.tally (w.ledger.vigils i) s (s.become m))
    (ht : (w.ledger.vigilOf o i s.machine m).ticket = some t) :
    w.Holds i t ∨ t ∉ w.ledger.tally.arrivals :=
  (Vigil.ticket_move hsp.passes ht).imp_left fun ht => ⟨hi, ht⟩

theorem holds_move (hi : (w.clients i).isWaiting)
    (hsp : Scene.Spares o i w.ledger.tally (w.ledger.vigils i) s (s.become m)) {j : Nat}
    (hj : Watch.Holds ⟨Function.update w.clients i ((w.clients i).goOn p
      (ph.rest o i millis nanos)), w.ledger.move o i p (ph.rest o i millis nanos) s.machine m⟩ j t) :
    w.Holds j t ∨ j = i ∧ t ∉ w.ledger.tally.arrivals := by
  obtain ⟨hw, ht⟩ := hj
  by_cases hji : j = i
  · subst hji
    simp only [Ledger.move, Function.update_self] at ht
    exact (holds_or_new hi hsp ht).imp_right fun hn => ⟨rfl, hn⟩
  · simp only [Ledger.move, Ledger.see, Function.update_of_ne hji] at hw ht
    exact .inl ⟨hw, ht⟩

theorem away_move (h : Watch.Kept o w s) (hw : p.call.isWait = true)
    (hi : (w.clients i).isWaiting)
    (hsp : Scene.Spares o i w.ledger.tally (w.ledger.vigils i) s (s.become m)) {j : Nat}
    {r : Return} (hj : Watch.Holds ⟨Function.update w.clients i ((w.clients i).goOn p
      (ph.rest o i millis nanos)), w.ledger.move o i p (ph.rest o i millis nanos) s.machine m⟩ j t)
    (hr : r ∈ (w.ledger.move o i p (ph.rest o i millis nanos) s.machine m).returns) :
    r.vigil.ticket ≠ some t := by
  intro hv
  rcases Ledger.returns_move hw ph millis nanos o i s.machine m w.ledger with he | ⟨a, rfl, he⟩
  · rcases holds_move hi hsp hj with hj' | ⟨rfl, hj'⟩
    · exact h.away j r t hj' (he ▸ hr) hv
    · exact h.unreturned (he ▸ hr) hj' hv
  · have hji : j ≠ i := by
      rintro rfl
      have hw := hj.waits
      simp [Client.goOn, WaitPhase.rest, Prog.answer?, Client.isWaiting, pure] at hw
    have hj := (holds_move hi hsp hj).resolve_right fun hk => hji hk.1
    rcases List.mem_cons.1 (he ▸ hr) with rfl | hr
    · rcases holds_or_new hi hsp hv with hk | hk
      · exact hji (h.apart j i t hj hk)
      · exact hk (h.arrived hj)
    · exact h.away j r t hj hr hv

end Waiting

theorem moveWait {q : Prog MonitorCall.Answer} {millis : Int64} {nanos : Int32}
    (h : Watch.Kept o w s) (ho : (s.machine.heap.get? o).isSome)
    (hp : (w.clients i).pending = some p) (hc : p.call = .wait millis nanos)
    (hm : p.rest.Moves i s q s') :
    Watch.Kept o ⟨Function.update w.clients i ((w.clients i).goOn p q),
      w.ledger.move o i p q s.machine s'.machine⟩ s' := by
  obtain ⟨ph, he, hst⟩ := h.waits i p millis nanos hp hc
  rw [he] at hm
  obtain ⟨ph', m, hn, rfl, rfl⟩ := WaitPhase.next?_of_moves hm
  obtain ⟨hsp, hst'⟩ := hst.move ho h.agrees (h.calm i) hn
  have hw : p.call.isWait = true := by rw [hc]; rfl
  have hi : (w.clients i).isWaiting := Client.isWaiting_iff.2 ⟨p, millis, nanos, hp, hc⟩
  have hret := Ledger.returns_move hw ph' millis nanos o i s.machine m w.ledger
  constructor
  case calm => exact fun j => (hsp.told j).trans (h.calm j)
  case agrees => exact hsp.passes.agrees
  case waits =>
    intro j p' millis' nanos' hp' hc'
    by_cases hji : j = i
    · subst hji
      simp only [Function.update_self, Client.goOn] at hp'
      split at hp'
      · cases hp'
      · cases hp'
        obtain ⟨rfl, rfl⟩ : millis = millis' ∧ nanos = nanos' := by
          simpa using hc.symm.trans hc'
        refine ⟨ph', rfl, ?_⟩
        simp only [Ledger.move, Function.update_self]
        exact hst'
    · simp only [Function.update_of_ne hji, Ledger.move, Ledger.see] at hp' ⊢
      refine h.spares hsp (fun k t hk ht hv => hk ?_) hji hp' hc'
      exact h.apart k i t ht ⟨hi, hv⟩
  case apart =>
    intro j k t hj hk
    rcases holds_move hi hsp hj with hj' | ⟨rfl, hj'⟩ <;>
      rcases holds_move hi hsp hk with hk' | ⟨rfl, hk'⟩
    · exact h.apart j k t hj' hk'
    · exact absurd (h.arrived hj') hk'
    · exact absurd (h.arrived hk') hj'
    · rfl
  case away => exact fun j r t hj hr => h.away_move hw hi hsp hj hr
  case distinct =>
    rcases hret with he | ⟨a, rfl, he⟩
    · exact he.symm ▸ h.distinct
    · refine he.symm ▸ List.pairwise_cons.2 ⟨fun r hr t ht => ?_, h.distinct⟩
      rcases holds_or_new hi hsp ht with hk | hk
      · exact h.away i r t hk hr
      · exact h.unreturned hr hk
  case returned =>
    intro r hr
    rcases hret with he | ⟨a, rfl, he⟩
    · exact h.passed hsp (he ▸ hr)
    · rcases List.mem_cons.1 (he ▸ hr) with rfl | hr
      · exact hst'
      · exact h.passed hsp hr

end Watch.Kept

theorem Watch.Kept.step {c c' : Watch × Scene} (h : Watch.Kept o c.1 c.2)
    (ho : (c.2.machine.heap.get? o).isSome) (hs : Clients.Staged o c.1.clients)
    (hc : Watch.Step o c c') : Watch.Kept o c'.1 c'.2 := by
  cases hc with
  | call i call hp => exact h.call call
  | @move w s s' p q i hp hm =>
    cases hw : p.call.isWait with
    | false => exact h.moveSingle ho (hs i p hp) hw hm
    | true =>
      cases hc : p.call with
      | wait millis nanos => exact h.moveWait ho hp hc hm
      | _ => simp [hc, MonitorCall.isWait] at hw
  | outside hp hm ht hi => exact h.outside hm ht hi

theorem Watch.kept_fresh {s : Scene} (hf : s.machine.monitorOf o = .free)
    (ht : ∀ j, s.machine.shouldTerminate j = false) :
    Watch.Kept o ⟨fun _ => .fresh, .fresh⟩ s where
  calm := ht
  agrees := by
    rw [hf]
    constructor <;> simp [Ledger.fresh, Monitor.free, Monitor.tickets]
  waits i p millis nanos hp _ := by cases hp
  apart i j t hi _ := by cases hi.waits
  away i r t hi _ := by cases hi.waits
  distinct := .nil
  returned r hr := by cases hr

theorem Watch.kept_of_run {s : Scene} (hp : (s.machine.heap.get? o).isSome)
    (hf : s.machine.monitorOf o = .free) (ht : ∀ j, s.machine.shouldTerminate j = false)
    {c : Watch × Scene} (hr : Watch.Run o (⟨fun _ => .fresh, .fresh⟩, s) c) :
    Watch.Kept o c.1 c.2 := by
  induction hr with
  | refl => exact kept_fresh hf ht
  | tail hr hs ih =>
    have hc := Watch.Run.clients hr
    have hl := ((Clients.fair_fresh hp hf).run hc).lockable.present
    have hst := Clients.Staged.run (c := (fun _ => .fresh, s)) (fun i p h => by cases h) hc
    exact ih.step hl hst hs

namespace WaitPhase

theorem marked_next? {ph ph' : WaitPhase} {millis : Int64} {nanos : Int32} {m : Machine} {t : Nat}
    (hp : (s.machine.heap.get? o).isSome)
    (hn : ph.next? o i millis nanos s.machine = some (ph', m))
    (ht : t ∈ (m.monitorOf o).marked) : t ∈ (s.machine.monitorOf o).marked := by
  cases ph with
  | attaching =>
    cases hn
    rwa [Machine.monitorOf_attachMonitor] at ht
  | parking deadline =>
    cases hn
    have hm : (Prog.park o s.machine).2.monitorOf o = (s.machine.monitorOf o).park :=
      Machine.monitorOf_setMonitor hp _
    rwa [hm, Monitor.marked_park] at ht
  | waiting ticket count deadline =>
    obtain ⟨r, hr, he⟩ := Option.map_eq_some_iff.1 hn
    cases he
    have hm : r.2.monitorOf o = (s.machine.monitorOf o).leave ticket := by
      rw [Machine.monitorOf, Blocker.heap_of_notification hr]
      exact Machine.monitorOf_setMonitor hp _
    rw [hm] at ht
    exact (Monitor.mem_marked_leave.1 ht).1
  | retaking count wake =>
    obtain ⟨r, hr, he⟩ := Option.map_eq_some_iff.1 hn
    cases he
    obtain ⟨x, hx, rfl⟩ := Option.map_eq_some_iff.1 hr
    have hw : x.marked = (s.machine.monitorOf o).marked := by
      unfold Monitor.retake? at hx
      split at hx <;> cases hx
      rfl
    rwa [Machine.monitorOf_setMonitor hp, hw] at ht
  | answered r => cases hn
  | _ =>
    cases hn
    exact ht

end WaitPhase

def Return.status? (r : Return) : Option WaitStatus :=
  match r.answer with
  | .ok status => status
  | .error _ => none

theorem Return.status?_eq_some {r : Return} {status : WaitStatus} :
    r.status? = some status ↔ r.answer = .ok (some status) := by
  unfold status?
  split <;> simp_all

structure Watch.Heeded (o : ObjectId) (w : Watch) (s : Scene) : Prop where
  ordered : (s.machine.monitorOf o).tickets.Sublist w.ledger.tally.arrivals ∧
    w.ledger.tally.arrivals.Pairwise (· < ·)
  one : ∀ i p q s', (w.clients i).pending = some p → p.call = .notify false →
    (s.machine.monitorOf o).isHeldBy i → p.rest.Moves i s q s' →
      q = .done (.ok none) ∧ ∀ t, (s'.machine.monitorOf o).isNotified t ↔
        (s.machine.monitorOf o).isNotified t ∨ (s.machine.monitorOf o).IsLongest t
  all : ∀ i p q s', (w.clients i).pending = some p → p.call = .notify true →
    (s.machine.monitorOf o).isHeldBy i → p.rest.Moves i s q s' →
      q = .done (.ok none) ∧ ∀ t, (s'.machine.monitorOf o).isNotified t ↔
        t ∈ (s.machine.monitorOf o).tickets
  only : ∀ i p q s', (w.clients i).pending = some p →
    (∀ all, p.call = .notify all → (s.machine.monitorOf o).isHeldBy i = false) →
      p.rest.Moves i s q s' → ∀ t, (s'.machine.monitorOf o).isNotified t →
        (s.machine.monitorOf o).isNotified t
  notified : ∀ r ∈ w.ledger.returns, r.status? = some .notified ↔
    ∃ t ∈ w.ledger.tally.marks, r.vigil.ticket = some t
  counted : (w.ledger.returns.filter (·.status? = some .notified)).length =
    (w.ledger.tally.marks.filter fun t =>
      w.ledger.returns.any fun r => r.vigil.ticket = some t).length
  interrupted : ∀ r ∈ w.ledger.returns,
    r.vigil.taken = if r.status? = some .interrupted then 1 else 0
  pending : ∀ r ∈ w.ledger.returns, r.status? ≠ some .interrupted → r.vigil.flagged → r.flagged

namespace Watch.Kept

variable {w : Watch}

theorem notified (h : Watch.Kept o w s) {r : Return} (hr : r ∈ w.ledger.returns) :
    r.status? = some .notified ↔ ∃ t ∈ w.ledger.tally.marks, r.vigil.ticket = some t :=
  Return.status?_eq_some.trans (h.returned r hr).2.notified

theorem counted (h : Watch.Kept o w s) :
    (w.ledger.returns.filter (·.status? = some .notified)).length =
      (w.ledger.tally.marks.filter fun t =>
        w.ledger.returns.any fun r => r.vigil.ticket = some t).length := by
  have hp : ((w.ledger.returns.filter (·.status? = some .notified)).map (·.vigil.ticket)).Perm
      ((w.ledger.tally.marks.filter fun t =>
        w.ledger.returns.any fun r => r.vigil.ticket = some t).map some) := by
    refine (List.perm_ext_iff_of_nodup ?_ ?_).2 fun x => ?_
    · refine List.pairwise_map.2 ((h.distinct.filter _).imp_of_mem ?_)
      intro r r' hr _ hd he
      obtain ⟨hr, hs⟩ := List.mem_filter.1 hr
      obtain ⟨t, -, ht⟩ := (h.notified hr).1 (of_decide_eq_true hs)
      exact hd t ht (he ▸ ht)
    · exact List.pairwise_map.2 ((h.agrees.nodup.filter _).imp fun hne he =>
        hne (Option.some.inj he))
    · simp only [List.mem_map, List.mem_filter, decide_eq_true_eq, List.any_eq_true]
      constructor
      · rintro ⟨r, ⟨hr, hs⟩, rfl⟩
        obtain ⟨t, hm, ht⟩ := (h.notified hr).1 hs
        exact ⟨t, ⟨hm, r, hr, ht⟩, ht.symm⟩
      · rintro ⟨t, ⟨hm, r, hr, ht⟩, rfl⟩
        exact ⟨r, ⟨hr, (h.notified hr).2 ⟨t, hm, ht⟩⟩, ht⟩
  simpa using hp.length_eq

theorem heeded (h : Watch.Kept o w s) (ho : (s.machine.heap.get? o).isSome)
    (hs : Clients.Staged o w.clients) : Watch.Heeded o w s where
  ordered := ⟨h.agrees.waiting, h.agrees.increasing⟩
  one i p q s' hp hc hh hm := by
    rw [(hs i p hp).single (by rw [hc]; rfl), hc] at hm
    have he := MonitorCall.moves_notify ho hh hm
    refine ⟨he.1, fun t => ?_⟩
    rw [he.2, Monitor.isNotified_iff, Monitor.isNotified_iff]
    exact Monitor.mem_marked_mark_first h.agrees.tickets_increasing
  all i p q s' hp hc hh hm := by
    rw [(hs i p hp).single (by rw [hc]; rfl), hc] at hm
    have he := MonitorCall.moves_notify ho hh hm
    refine ⟨he.1, fun t => ?_⟩
    rw [he.2, Monitor.isNotified_iff, Monitor.marked_mark_all]
  only i p q s' hp hn hm t ht := by
    rw [Monitor.isNotified_iff] at ht ⊢
    cases hw : p.call.isWait with
    | false =>
      rw [(hs i p hp).single hw] at hm
      have he := (MonitorCall.waiters_of_moves hw ho hn hm).2.1
      simpa only [Monitor.marked, he] using ht
    | true =>
      cases hc : p.call with
      | wait millis nanos =>
        obtain ⟨ph, he⟩ := (hs i p hp).waits millis nanos hc
        rw [he] at hm
        obtain ⟨ph', m, hn, -, rfl⟩ := WaitPhase.next?_of_moves hm
        exact WaitPhase.marked_next? ho hn ht
      | _ => simp [hc, MonitorCall.isWait] at hw
  notified r hr := h.notified hr
  counted := h.counted
  interrupted r hr := by
    have he := (h.returned r hr).2
    split
    · rename_i hi
      exact he.interrupted (Return.status?_eq_some.1 hi)
    · rename_i hi
      exact (he.untouched fun hr => hi (Return.status?_eq_some.2 hr)).1
  pending r hr hi hf := by
    have he := (h.returned r hr).2.untouched fun hr => hi (Return.status?_eq_some.2 hr)
    exact he.2 ▸ hf

end Watch.Kept

theorem Watch.heeded_of_run {s : Scene} (hp : (s.machine.heap.get? o).isSome)
    (hf : s.machine.monitorOf o = .free) (ht : ∀ j, s.machine.shouldTerminate j = false)
    {w : Watch} {s' : Scene} (hr : Watch.Run o (⟨fun _ => .fresh, .fresh⟩, s) (w, s')) :
    Watch.Heeded o w s' := by
  have hc := Watch.Run.clients hr
  refine (kept_of_run hp hf ht hr).heeded ((Clients.fair_fresh hp hf).run hc).lockable.present ?_
  exact Clients.Staged.run (c := (fun _ => .fresh, s)) (fun i p h => by cases h) hc

theorem Watch.run_of_runs {w : Watch} {p : PendingCall} {c : Prog MonitorCall.Answer × Scene}
    (hp : (w.clients i).pending = some p) (hr : Prog.Runs i (p.rest, s) c)
    (hq : c.1.answer? = none) :
    ∃ l, Watch.Run o (w, s) (⟨Function.update w.clients i
      { w.clients i with pending := some { p with rest := c.1 } }, l⟩, c.2) := by
  induction hr with
  | refl =>
    have he : Function.update w.clients i { w.clients i with pending := some p } = w.clients := by
      rw [← hp]
      exact Function.update_eq_self i w.clients
    refine ⟨w.ledger, ?_⟩
    rw [he]
  | @tail b c _ hm ih =>
    obtain ⟨l, hl⟩ := ih hm.answer?_eq_none
    have hs := Watch.Step.move (o := o) (w := ⟨Function.update w.clients i
      { w.clients i with pending := some { p with rest := b.1 } }, l⟩)
      (p := { p with rest := b.1 }) i (by simp only [Function.update_self]) hm
    simp only [Function.update_self, Function.update_idem, Client.goOn, hq] at hs
    exact ⟨_, hl.tail hs⟩

theorem Watch.run_enter {w : Watch} {m : Monitor} (hp : (w.clients i).pending = none)
    (hm : (s.machine.monitorOf o).enter? i = some m) :
    ∃ w', Watch.Run o (w, s) (w', s.become (s.machine.setMonitor o m)) ∧
      (w'.clients i).pending = none ∧ ∀ j, j ≠ i → w'.clients j = w.clients j := by
  have ha : (Blocker.enter o i).attempt s.machine =
      some (.granted, s.machine.setMonitor o m) := by
    simp [Blocker.attempt, hm]
  have hs := Watch.Step.move (o := o) (w := ⟨Function.update w.clients i { w.clients i with
    pending := some ⟨.enter, s.machine.monitorOf o, MonitorCall.enter.on o i⟩ },
    w.ledger.call i s.machine⟩)
    (p := ⟨.enter, s.machine.monitorOf o, MonitorCall.enter.on o i⟩) i
    (by simp only [Function.update_self]) (.wait _ ha)
  simp only [Function.update_self, Function.update_idem] at hs
  refine ⟨_, (Relation.ReflTransGen.single (.call i .enter hp)).tail hs, ?_, fun j hj => ?_⟩
  · exact congrArg Client.pending (Function.update_self i _ w.clients)
  · exact Function.update_of_ne hj ..

theorem Watch.run_wait {w : Watch} (millis : Int64) (nanos : Int32)
    (hw : (w.clients i).pending = none) (hp : (s.machine.heap.get? o).isSome)
    (ho : (s.machine.monitorOf o).owner = some i) (hi : s.machine.isInterrupted i = false) :
    ∃ (w' : Watch) (s' : Scene) (p : PendingCall), Watch.Run o (w, s) (w', s') ∧
      ((w'.clients i).pending = some p ∧ ∀ j, j ≠ i → w'.clients j = w.clients j) ∧
      (p.call.isWait ∧ p.rest.blocker?.isSome) ∧
      (s'.machine.heap.get? o).isSome ∧ s'.machine.monitorOf o = (s.machine.monitorOf o).park ∧
        s'.machine.shouldTerminate i = s.machine.shouldTerminate i := by
  obtain ⟨deadline, s', hr, h⟩ := WaitPhase.runs_waiting millis nanos hp ho hi
  have hs := Watch.Step.call (o := o) (w := w) (s := s) i (.wait millis nanos) hw
  obtain ⟨l, hl⟩ := run_of_runs (o := o) (w := ⟨Function.update w.clients i { w.clients i with
      pending := some ⟨.wait millis nanos, s.machine.monitorOf o,
        (MonitorCall.wait millis nanos).on o i⟩ }, w.ledger.call i s.machine⟩)
    (p := ⟨.wait millis nanos, s.machine.monitorOf o, (MonitorCall.wait millis nanos).on o i⟩)
    (by simp only [Function.update_self]) hr rfl
  simp only [Function.update_self, Function.update_idem] at hl
  refine ⟨_, s', ⟨.wait millis nanos, s.machine.monitorOf o,
      (WaitPhase.waiting (s.machine.monitorOf o).nextTicket (s.machine.monitorOf o).count
        deadline).rest o i millis nanos⟩, .head hs hl,
    ⟨?_, fun j hj => Function.update_of_ne hj ..⟩, ⟨rfl, rfl⟩, h⟩
  exact congrArg Client.pending (Function.update_self i _ w.clients)

theorem Watch.heeded_of_waiting :
    ∃ (s : Scene) (w : Watch) (s' : Scene),
      Watch.Run ⟨0⟩ (⟨fun _ => .fresh, .fresh⟩, s) (w, s') ∧ (w.clients 1).isWaiting ∧
        (w.clients 2).pending.map (·.call) = some (.notify false) ∧
        (s'.machine.monitorOf ⟨0⟩).isHeldBy 2 ∧ (s'.machine.monitorOf ⟨0⟩).IsLongest 0 ∧
        Watch.Heeded ⟨0⟩ w s' := by
  let c : Class := ⟨.object, none, [], none, default, none, .regular, [], [], []⟩
  let m := Machine.create [] .standard .standard .sound .sound (.ofVerbosity none)
  let s : Scene := ⟨{ m with heap := ⟨#[.instanceOf c]⟩ }, []⟩
  obtain ⟨w1, h1, hw1, ho1⟩ := run_enter (o := ⟨0⟩) (w := ⟨fun _ => .fresh, .fresh⟩) (s := s)
    (i := 1) (m := ⟨some 1, 1, [], 0⟩) rfl rfl
  obtain ⟨w2, s2, p, h2, ⟨hp, ho2⟩, ⟨hw, -⟩, hs, hm, -⟩ :=
    run_wait (o := ⟨0⟩) (i := 1)
      (s := s.become (s.machine.setMonitor ⟨0⟩ ⟨some 1, 1, [], 0⟩)) 0 0 hw1 rfl rfl rfl
  have hn : (w2.clients 2).pending = none := by rw [ho2 2 (by decide), ho1 2 (by decide)]; rfl
  obtain ⟨w3, h3, hw3, ho3⟩ := run_enter (o := ⟨0⟩) (i := 2) (m := ⟨some 2, 1, [⟨0, false⟩], 1⟩)
    hn (congrArg (·.enter? 2) hm)
  have h4 := ((h1.trans h2).trans h3).tail (.call 2 (.notify false) hw3)
  have he := Machine.monitorOf_setMonitor hs ⟨some 2, 1, [⟨0, false⟩], 1⟩
  refine ⟨s, _, _, h4, ?_, ?_, congrArg (·.isHeldBy 2) he, ?_,
    heeded_of_run rfl rfl (fun _ => rfl) h4⟩
  · simp [ho3 1 (by decide), Client.isWaiting, hp, hw]
  · simp only [Function.update_self, Option.map_some]
  · exact he.symm ▸ ⟨by decide, by decide, fun a _ _ => Nat.zero_le a⟩

end BytecodeMachine
