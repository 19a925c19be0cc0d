import BytecodeMachine.Proofs.Locking.Calls

namespace BytecodeMachine

variable {o : ObjectId} {i : Nat}

structure PendingCall where
  call : MonitorCall
  before : Monitor
  rest : Prog MonitorCall.Answer

structure Client where
  enters : Nat
  exits : Nat
  pending : Option PendingCall

namespace Client

def fresh : Client := ⟨0, 0, none⟩

def depth (c : Client) : Nat := c.enters - c.exits

def isWaiting (c : Client) : Bool := c.pending.any (·.call.isWait)

def credit (c : Client) (call : MonitorCall) (r : MonitorCall.Answer) : Client :=
  match call, r with
  | .enter, .ok _ => { c with enters := c.enters + 1 }
  | .exit, .ok _ => { c with exits := c.exits + 1 }
  | _, _ => c

def goOn (c : Client) (p : PendingCall) (rest : Prog MonitorCall.Answer) : Client :=
  match rest.answer? with
  | some r => { c.credit p.call r with pending := none }
  | none => { c with pending := some { p with rest := rest } }

end Client

abbrev Clients := Nat → Client

inductive Clients.Step (o : ObjectId) : Clients × Scene → Clients × Scene → Prop
  | call {cs : Clients} {s : Scene} (i : Nat) (call : MonitorCall) (h : (cs i).pending = none) :
      Step o (cs, s) (Function.update cs i
        { cs i with pending := some ⟨call, s.machine.monitorOf o, call.on o i⟩ }, s)
  | move {cs : Clients} {s s' : Scene} {p : PendingCall} {q : Prog MonitorCall.Answer} (i : Nat)
      (hp : (cs i).pending = some p) (hm : p.rest.Moves i s q s') :
      Step o (cs, s) (Function.update cs i ((cs i).goOn p q), s')
  | outside {cs : Clients} {s : Scene} {m : Machine}
      (hp : (s.machine.heap.get? o).isSome → (m.heap.get? o).isSome)
      (hm : m.monitorOf o = s.machine.monitorOf o) : Step o (cs, s) (cs, s.become m)

abbrev Clients.Run (o : ObjectId) : Clients × Scene → Clients × Scene → Prop :=
  Relation.ReflTransGen (Clients.Step o)

structure PendingCall.Fair (o : ObjectId) (i d : Nat) (p : PendingCall) (s : Scene) : Prop where
  before : p.before.Balanced ∧ p.before.depthOf i = d
  meets : p.rest.Meets (.locking o i) (fun r s' => ∃ e, p.call.Leads r d e ∧ s'.Stands o i e) s
  single : p.call.isWait = false → p.rest.IsLast ∧ s.Stands o i d
  denies : ∀ a, p.call.action? = some a → d = 0 → p.rest.Denies o i a ∧ s.Stands o i 0

structure Client.Fair (o : ObjectId) (i : Nat) (c : Client) (s : Scene) : Prop where
  le : c.exits ≤ c.enters
  idle : c.pending = none → s.Stands o i c.depth
  pending : ∀ p, c.pending = some p → p.Fair o i c.depth s

namespace PendingCall.Fair

variable {d : Nat} {p : PendingCall} {s s' : Scene} {q : Prog MonitorCall.Answer}

theorem stable (h : p.Fair o i d s) (hr : (Contract.locking o i).rely s s') : p.Fair o i d s' where
  before := h.before
  meets := (Contract.family_locking o).meets_stable
    (fun _ hq => hq.imp fun _ he => he.imp_right (·.stable hr)) h.meets hr
  single hw := (h.single hw).imp_right (·.stable hr)
  denies a ha hd := (h.denies a ha hd).imp_right (·.stable hr)

theorem call (hs : s.Stands o i d) (c : MonitorCall) :
    PendingCall.Fair o i d ⟨c, s.machine.monitorOf o, c.on o i⟩ s where
  before := ⟨hs.lockable.balanced, hs.depth⟩
  meets := MonitorCall.meets_on hs c
  single hw := ⟨MonitorCall.isLast_on hw o i, hs⟩
  denies _ ha hd := ⟨MonitorCall.denies_on ha o i, hd ▸ hs⟩

-- What goes on after its move is a wait.
theorem move (h : p.Fair o i d s) (hm : p.rest.Moves i s q s') (hq : q.answer? = none) :
    PendingCall.Fair o i d { p with rest := q } s' where
  before := h.before
  meets := ((Contract.family_locking o).meets_moves h.meets hm).2
  single hw := by
    have hl := (h.single hw).1
    generalize p.rest = x at hl hm
    cases hm with
    | step f next =>
      obtain ⟨r, hr⟩ := hl (f s.machine).1
      rw [hr] at hq
      cases hq
    | sign => exact hl.elim
    | wait next ha =>
      obtain ⟨r, hr⟩ := hl _
      rw [hr] at hq
      cases hq
  denies a ha hd := by
    have hn := h.denies a ha hd
    exact (hn.1.moves hn.2 hm).symm

end PendingCall.Fair

namespace Client.Fair

variable {c : Client} {p : PendingCall} {s s' : Scene} {q : Prog MonitorCall.Answer}

theorem stable (h : c.Fair o i s) (hr : (Contract.locking o i).rely s s') : c.Fair o i s' where
  le := h.le
  idle hp := (h.idle hp).stable hr
  pending p hp := (h.pending p hp).stable hr

theorem call (h : c.Fair o i s) (hp : c.pending = none) (x : MonitorCall) :
    Client.Fair o i { c with pending := some ⟨x, s.machine.monitorOf o, x.on o i⟩ } s where
  le := h.le
  idle hn := by cases hn
  pending p he := by
    cases he
    exact .call (h.idle hp) x

theorem credit {e : Nat} {x : MonitorCall} {r : MonitorCall.Answer} (hle : c.exits ≤ c.enters)
    (h : x.Leads r c.depth e) :
    (c.credit x r).exits ≤ (c.credit x r).enters ∧ (c.credit x r).depth = e := by
  cases x <;> cases r <;>
    simp only [MonitorCall.Leads, Client.depth, Client.credit] at h ⊢ <;> omega

theorem move (h : c.Fair o i s) (hp : c.pending = some p) (hm : p.rest.Moves i s q s') :
    (c.goOn p q).Fair o i s' := by
  have hf := h.pending p hp
  cases hq : q.answer? with
  | none =>
    simp only [Client.goOn, hq]
    exact
      { le := h.le
        idle := fun hn => by cases hn
        pending := fun p' he => by
          cases he
          exact hf.move hm hq }
  | some r =>
    have hmeets := ((Contract.family_locking o).meets_moves hf.meets hm).2
    obtain rfl : q = .done r := by
      cases q with
      | done => cases hq; rfl
      | _ => cases hq
    obtain ⟨e, he, hs⟩ := hmeets
    have hc := credit h.le he
    simp only [Client.goOn, hq]
    exact
      { le := hc.1
        idle := fun _ => ⟨hs.lockable, hs.depth.trans hc.2.symm⟩
        pending := fun p' he => by cases he }

end Client.Fair

structure Clients.Fair (o : ObjectId) (c : Clients × Scene) : Prop where
  lockable : c.2.machine.Lockable o
  client : ∀ i, (c.1 i).Fair o i c.2

theorem Clients.fair_update {cs : Clients} {c : Client} {s : Scene} (hl : s.machine.Lockable o)
    (hi : c.Fair o i s) (ho : ∀ j, j ≠ i → (cs j).Fair o j s) :
    Clients.Fair o (Function.update cs i c, s) := by
  refine ⟨hl, fun j => ?_⟩
  by_cases hj : j = i
  · subst hj
    simpa only [Function.update_self] using hi
  · simpa only [Function.update_of_ne hj] using ho j hj

theorem Clients.Fair.step {c c' : Clients × Scene} (h : Clients.Fair o c)
    (hs : Clients.Step o c c') : Clients.Fair o c' := by
  have hk := Contract.family_locking o
  cases hs with
  | call i x hp =>
    exact Clients.fair_update h.lockable ((h.client i).call hp x) fun j _ => h.client j
  | @move cs s s' p q i hp hm =>
    have hg := (hk.meets_moves ((h.client i).pending p hp).meets hm).1
    refine Clients.fair_update (hg h.lockable).lockable ((h.client i).move hp hm) fun j hj => ?_
    exact (h.client j).stable (hk.compatible i j s s' (Ne.symm hj) hg)
  | @outside cs s m hp hm =>
    have hl : m.Lockable o := ⟨hp h.lockable.present, hm ▸ h.lockable.balanced⟩
    exact ⟨hl, fun j => (h.client j).stable fun _ => ⟨hl, congrArg (·.depthOf j) hm⟩⟩

theorem Clients.Fair.run {c c' : Clients × Scene} (h : Clients.Fair o c)
    (hr : Clients.Run o c c') : Clients.Fair o c' := by
  induction hr with
  | refl => exact h
  | tail _ hs ih => exact ih.step hs

theorem Clients.fair_fresh {s : Scene} (hp : (s.machine.heap.get? o).isSome)
    (hf : s.machine.monitorOf o = .free) : Clients.Fair o (fun _ => .fresh, s) := by
  have hl : s.machine.Lockable o := ⟨hp, by simp [hf, Monitor.Balanced, Monitor.free]⟩
  refine ⟨hl, fun i => ⟨Nat.le_refl 0, fun _ => ⟨hl, ?_⟩, fun p hp => by cases hp⟩⟩
  rw [hf]
  rfl

structure Clients.Accounted (o : ObjectId) (cs : Clients) (s : Scene) : Prop where
  owned : (s.machine.monitorOf o).owner.isSome ↔ 0 < (s.machine.monitorOf o).count
  exclusive : ∀ i j, (s.machine.monitorOf o).isHeldBy i →
    (s.machine.monitorOf o).isHeldBy j → i = j
  balance : ∀ i, (cs i).exits ≤ (cs i).enters
  held : ∀ i, (cs i).isWaiting = false → (cs i).exits < (cs i).enters →
    (s.machine.monitorOf o).isHeldBy i ∧
      (s.machine.monitorOf o).count = (cs i).enters - (cs i).exits
  left : ∀ i, (cs i).isWaiting = false → (cs i).exits = (cs i).enters →
    (s.machine.monitorOf o).isHeldBy i = false
  resumed : ∀ i p status s', (cs i).pending = some p → p.call.isWait →
    p.rest.Moves i s (.done (.ok (some status))) s' →
    p.before.isHeldBy i ∧ (s'.machine.monitorOf o).isHeldBy i ∧
      (s'.machine.monitorOf o).count = p.before.count
  refused : ∀ i p a, (cs i).pending = some p → p.call.action? = some a →
    p.before.isHeldBy i = false →
    (s.machine.monitorOf o).isHeldBy i = false ∧ p.rest.Denies o i a ∧
      (Cause.notHeld a).condition = .illegalMonitorState

namespace Clients.Fair

variable {cs : Clients} {s s' : Scene} {p : PendingCall}

theorem stands (h : Clients.Fair o (cs, s)) (hw : (cs i).isWaiting = false) :
    s.Stands o i (cs i).depth := by
  cases hp : (cs i).pending with
  | none => exact (h.client i).idle hp
  | some p =>
    refine (((h.client i).pending p hp).single ?_).2
    simpa [Client.isWaiting, hp] using hw

theorem denies (h : Clients.Fair o (cs, s)) {a : MonitorAction} (hp : (cs i).pending = some p)
    (ha : p.call.action? = some a) (hb : p.before.isHeldBy i = false) :
    p.rest.Denies o i a ∧ s.Stands o i 0 := by
  have hf := (h.client i).pending p hp
  exact hf.denies a ha (hf.before.2.symm.trans (hf.before.1.depthOf_eq_zero hb))

theorem resumed (h : Clients.Fair o (cs, s)) {status : WaitStatus} (hp : (cs i).pending = some p)
    (hw : p.call.isWait) (hm : p.rest.Moves i s (.done (.ok (some status))) s') :
    p.before.isHeldBy i ∧ (s'.machine.monitorOf o).isHeldBy i ∧
      (s'.machine.monitorOf o).count = p.before.count := by
  have hf := (h.client i).pending p hp
  obtain ⟨e, he, hs⟩ := ((Contract.family_locking o).meets_moves hf.meets hm).2
  obtain ⟨call, before, rest⟩ := p
  cases call with
  | wait millis nanos =>
    obtain rfl : e = _ := he
    have hb : before.isHeldBy i := by
      by_contra hn
      have hd := h.denies hp rfl (Bool.eq_false_iff.2 hn)
      cases (hd.1.moves hd.2 hm).2
    have hh := hs.isHeldBy_iff.2 (hf.before.2 ▸ (hf.before.1.isHeldBy_iff i).1 hb)
    refine ⟨hb, hh, ?_⟩
    rw [Monitor.count_eq_depthOf hh, Monitor.count_eq_depthOf hb, hs.depth, hf.before.2]
  | _ => cases hw

theorem accounted (h : Clients.Fair o (cs, s)) : Clients.Accounted o cs s where
  owned := h.lockable.balanced
  exclusive i j hi hj := by
    simp only [Monitor.isHeldBy, decide_eq_true_eq] at hi hj
    exact Option.some.inj (hi.symm.trans hj)
  balance i := (h.client i).le
  held i hw hlt := by
    have hs := h.stands hw
    have hh := hs.isHeldBy_iff.2 (Nat.sub_pos_of_lt hlt)
    exact ⟨hh, (Monitor.count_eq_depthOf hh).trans hs.depth⟩
  left i hw he := by
    rw [Bool.eq_false_iff]
    intro hh
    have hd := (h.stands hw).isHeldBy_iff.1 hh
    simp [Client.depth, he] at hd
  resumed i p status s' hp hw hm := h.resumed hp hw hm
  refused i p a hp ha hb := by
    have hd := h.denies hp ha hb
    refine ⟨?_, hd.1, rfl⟩
    rw [Bool.eq_false_iff]
    exact fun hh => Nat.lt_irrefl 0 (hd.2.isHeldBy_iff.1 hh)

end Clients.Fair

theorem Clients.accounted_of_run {s : Scene} (hp : (s.machine.heap.get? o).isSome)
    (hf : s.machine.monitorOf o = .free) {cs : Clients} {s' : Scene}
    (hr : Clients.Run o (fun _ => .fresh, s) (cs, s')) : Clients.Accounted o cs s' :=
  ((fair_fresh hp hf).run hr).accounted

theorem Clients.accounted_of_entering :
    ∃ (s : Scene) (cs : Clients) (s' : Scene),
      Clients.Run ⟨0⟩ (fun _ => .fresh, s) (cs, s') ∧ (cs 1).enters = 1 ∧
        (cs 2).pending.map (·.call) = some .exit ∧ Clients.Accounted ⟨0⟩ cs s' := by
  let c : Class := ⟨.object, none, [], none, default, none, .regular, [], [], []⟩
  let m := Machine.create [] .standard .standard .sound .sound (.ofVerbosity none)
  let s : Scene := ⟨{ m with heap := ⟨#[.instanceOf c]⟩ }, []⟩
  let cs : Clients := Function.update (fun _ => .fresh) 1
    { Client.fresh with pending := some ⟨.enter, .free, MonitorCall.enter.on ⟨0⟩ 1⟩ }
  have h1 : Clients.Step ⟨0⟩ (fun _ => .fresh, s) (cs, s) := .call 1 .enter rfl
  have hm : (MonitorCall.enter.on ⟨0⟩ 1).Moves 1 s _ _ := .wait _ rfl
  have h2 : Clients.Step ⟨0⟩ (cs, s) _ := .move 1 rfl hm
  have hr := ((Relation.ReflTransGen.single h1).tail h2).tail (.call 2 .exit rfl)
  exact ⟨s, _, _, hr, rfl, rfl, accounted_of_run rfl rfl hr⟩

end BytecodeMachine
