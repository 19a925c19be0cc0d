import BytecodeMachine.Exec.Waiting
import BytecodeMachine.Proofs.Interleaving

namespace BytecodeMachine

variable {o : ObjectId} {i : Nat}

namespace Monitor

variable {m m' : Monitor}

def depthOf (m : Monitor) (thread : Nat) : Nat :=
  if m.owner = some thread then m.count else 0

def Balanced (m : Monitor) : Prop := m.owner.isSome ↔ 0 < m.count

theorem Balanced.isHeldBy_iff (h : m.Balanced) (i : Nat) : m.isHeldBy i ↔ 0 < m.depthOf i := by
  by_cases ho : m.owner = some i
  · simpa [isHeldBy, depthOf, ho, Balanced] using h
  · simp [isHeldBy, depthOf, ho]

theorem Balanced.depthOf_eq_zero (h : m.Balanced) (hf : m.isHeldBy i = false) :
    m.depthOf i = 0 := by
  have := h.isHeldBy_iff i
  grind

theorem count_eq_depthOf (h : m.isHeldBy i) : m.count = m.depthOf i := by
  simp_all [isHeldBy, depthOf]

structure Changes (i : Nat) (m m' : Monitor) : Prop where
  balanced : m'.Balanced
  others : ∀ j, j ≠ i → m'.depthOf j = m.depthOf j

theorem changes_enter (h : m.enter? i = some m') :
    m.Changes i m' ∧ m'.depthOf i = m.depthOf i + 1 := by
  obtain ⟨owner, count, waiters, next⟩ := m
  cases owner with
  | none =>
    cases h
    refine ⟨⟨by simp [Balanced], fun j hj => ?_⟩, by simp [depthOf]⟩
    simp [depthOf, Ne.symm hj]
  | some k =>
    simp only [enter?] at h
    split at h
    · subst k
      cases h
      refine ⟨⟨by simp [Balanced], fun j hj => ?_⟩, by simp [depthOf]⟩
      simp [depthOf, Ne.symm hj]
    · cases h

theorem changes_exit (hb : m.Balanced) (h : m.exit? i true = some m') :
    m.Changes i m' ∧ m'.depthOf i + 1 = m.depthOf i := by
  simp only [exit?, Bool.not_true, Bool.false_and, Bool.or_false] at h
  split at h
  case isTrue hi =>
    obtain ⟨owner, count, waiters, next⟩ := m
    obtain rfl : owner = some i := by simpa [isHeldBy] using hi
    have hc : 0 < count := by simpa [Balanced] using hb
    cases h
    refine ⟨⟨?_, fun j hj => ?_⟩, ?_⟩
    · by_cases h1 : count ≤ 1 <;> simp [Balanced, release, h1]
      omega
    · by_cases h1 : count ≤ 1 <;> simp [depthOf, release, h1, Ne.symm hj]
    · by_cases h1 : count ≤ 1 <;> simp [depthOf, release, h1] <;> omega
  case isFalse => cases h

theorem exit?_eq_none (h : m.isHeldBy i = false) : m.exit? i true = none := by
  simp [exit?, h]

theorem notify?_eq_none (h : m.isHeldBy i = false) (all : Bool) : m.notify? i all = none := by
  simp [notify?, h]

theorem changes_of_lock_eq (hb : m.Balanced) (ho : m'.owner = m.owner) (hc : m'.count = m.count) :
    m.Changes i m' ∧ m'.depthOf i = m.depthOf i := by
  refine ⟨⟨?_, fun j hj => ?_⟩, ?_⟩
  · rwa [Balanced, ho, hc]
  · rw [depthOf, depthOf, ho, hc]
  · rw [depthOf, depthOf, ho, hc]

theorem changes_notify {all : Bool} (hb : m.Balanced) (h : m.notify? i all = some m') :
    m.Changes i m' ∧ m'.depthOf i = m.depthOf i := by
  unfold notify? at h
  split at h
  · cases h
    exact changes_of_lock_eq hb rfl rfl
  · cases h

theorem changes_park (h : m.isHeldBy i) : m.Changes i m.park ∧ m.park.depthOf i = 0 := by
  have ho : m.owner = some i := by simpa [isHeldBy] using h
  refine ⟨⟨by simp [Balanced, park], fun j hj => ?_⟩, rfl⟩
  simp [depthOf, park, ho, Ne.symm hj]

theorem changes_retake {n : Nat} (hn : 0 < n) (h : m.retake? i n = some m') :
    m.Changes i m' ∧ m'.depthOf i = n := by
  unfold retake? at h
  split at h
  case h_1 ho =>
    cases h
    refine ⟨⟨by simpa [Balanced] using hn, fun j hj => ?_⟩, by simp [depthOf]⟩
    simp [depthOf, ho, Ne.symm hj]
  case h_2 => cases h

end Monitor

namespace Machine

variable {m m' : Machine}

theorem isSome_setMonitor (o p : ObjectId) (x : Monitor) (m : Machine) :
    ((m.setMonitor o x).heap.get? p).isSome = (m.heap.get? p).isSome := by
  simp only [setMonitor, Heap.get?_modify]
  split <;> simp

theorem monitorOf_setMonitor (h : (m.heap.get? o).isSome) (x : Monitor) :
    (m.setMonitor o x).monitorOf o = x := by
  obtain ⟨object, ho⟩ := Option.isSome_iff_exists.1 h
  simp [monitorOf, setMonitor, Heap.get?_modify, ho]

theorem monitorOf_attachMonitor (o p : ObjectId) (m : Machine) :
    (m.attachMonitor o).monitorOf p = m.monitorOf p := by
  by_cases hp : o = p
  · subst hp
    cases ho : m.heap.get? o <;> simp [attachMonitor, monitorOf, setMonitor, Heap.get?_modify, ho]
  · simp [attachMonitor, monitorOf, setMonitor, Heap.get?_modify, hp]

structure Lockable (o : ObjectId) (m : Machine) : Prop where
  present : (m.heap.get? o).isSome
  balanced : (m.monitorOf o).Balanced

structure Locks (o : ObjectId) (i : Nat) (m m' : Machine) : Prop where
  present : (m'.heap.get? o).isSome
  changes : (m.monitorOf o).Changes i (m'.monitorOf o)

theorem Locks.lockable (h : m.Locks o i m') : m'.Lockable o :=
  ⟨h.present, h.changes.balanced⟩

theorem Lockable.locks_setMonitor (h : m.Lockable o) {x : Monitor}
    (hx : (m.monitorOf o).Changes i x) : m.Locks o i (m.setMonitor o x) := by
  refine ⟨(isSome_setMonitor o o x m).trans h.present, ?_⟩
  rwa [monitorOf_setMonitor h.present]

theorem Lockable.locks_of_eq (h : m.Lockable o) (hp : (m'.heap.get? o).isSome)
    (hm : m'.monitorOf o = m.monitorOf o) : m.Locks o i m' := by
  refine ⟨hp, ?_⟩
  rw [hm]
  exact ⟨h.balanced, fun _ _ => rfl⟩

end Machine

theorem Blocker.heap_of_notification {m m' : Machine} {ticket : Nat} {deadline : Option Nat}
    {w : Wake} (h : (Blocker.notification o i ticket deadline).attempt m = some (w, m')) :
    m'.heap = (m.setMonitor o ((m.monitorOf o).leave ticket)).heap := by
  have hk : (m.takeInterrupt i).2.heap = m.heap := rfl
  simp only [attempt, leave] at h
  generalize m.takeInterrupt i = r at h hk
  obtain ⟨interrupted, m1⟩ := r
  repeat' split at h
  all_goals cases h
  all_goals simp_all [Machine.setMonitor, Machine.monitorOf]

def Contract.locking (o : ObjectId) (i : Nat) : Contract where
  thread := i
  rely s s' := s.machine.Lockable o → s'.machine.Lockable o ∧
    (s'.machine.monitorOf o).depthOf i = (s.machine.monitorOf o).depthOf i
  guarantee s s' := s.machine.Lockable o → s.machine.Locks o i s'.machine

theorem Contract.family_locking (o : ObjectId) : Contract.Family (.locking o) where
  thread _ := rfl
  refl _ _ h := ⟨h, rfl⟩
  trans _ _ _ _ h h' hs :=
    have h1 := h hs
    have h2 := h' h1.1
    ⟨h2.1, h2.2.trans h1.2⟩
  compatible _ j _ _ hij h hs := ⟨(h hs).lockable, (h hs).changes.others j (Ne.symm hij)⟩

structure Scene.Stands (o : ObjectId) (i d : Nat) (s : Scene) : Prop where
  lockable : s.machine.Lockable o
  depth : (s.machine.monitorOf o).depthOf i = d

def Scene.Brings (o : ObjectId) (i d : Nat) (s : Scene) (m : Machine) : Prop :=
  s.machine.Locks o i m ∧ (s.become m).Stands o i d

namespace Scene.Stands

variable {d e : Nat} {s s' : Scene} {m : Machine}

theorem stable (h : s.Stands o i d) (hr : (Contract.locking o i).rely s s') : s'.Stands o i d :=
  have hs := hr h.lockable
  ⟨hs.1, hs.2.trans h.depth⟩

theorem isHeldBy_iff (h : s.Stands o i d) : (s.machine.monitorOf o).isHeldBy i ↔ 0 < d := by
  rw [h.lockable.balanced.isHeldBy_iff, h.depth]

theorem brings_of_eq (h : s.Stands o i d) (hp : (m.heap.get? o).isSome)
    (hm : m.monitorOf o = s.machine.monitorOf o) : s.Brings o i d m := by
  have hl := h.lockable.locks_of_eq (i := i) hp hm
  exact ⟨hl, hl.lockable, (congrArg (·.depthOf i) hm).trans h.depth⟩

theorem attachMonitor (h : s.Stands o i d) : s.Brings o i d (s.machine.attachMonitor o) :=
  h.brings_of_eq ((s.machine.isSome_setMonitor o o _).trans h.lockable.present)
    (s.machine.monitorOf_attachMonitor o o)

theorem unchanged (h : s.Stands o i d) (hm : m.heap = s.machine.heap) : s.Brings o i d m :=
  h.brings_of_eq (hm ▸ h.lockable.present) (by rw [Machine.monitorOf, hm, Machine.monitorOf])

theorem setMonitor (h : s.Stands o i d) {x : Monitor}
    (hx : (s.machine.monitorOf o).Changes i x ∧ x.depthOf i = e)
    (hm : m.heap = (s.machine.setMonitor o x).heap) : s.Brings o i e m := by
  have hl := h.lockable.locks_setMonitor hx.1
  have he : m.monitorOf o = x := by
    rw [Machine.monitorOf, hm]
    exact Machine.monitorOf_setMonitor h.lockable.present x
  have hm' : s.machine.Locks o i m := ⟨hm ▸ hl.present, he ▸ hx.1⟩
  exact ⟨hm', hm'.lockable, (congrArg (·.depthOf i) he).trans hx.2⟩

theorem notification (h : s.Stands o i d) {ticket : Nat} {deadline : Option Nat} {w : Wake}
    (ha : (Blocker.notification o i ticket deadline).attempt s.machine = some (w, m)) :
    s.Brings o i d m := by
  let monitor := (s.machine.monitorOf o).leave ticket
  have hl : (s.machine.monitorOf o).Changes i monitor ∧
      monitor.depthOf i = (s.machine.monitorOf o).depthOf i :=
    Monitor.changes_of_lock_eq h.lockable.balanced rfl rfl
  exact h.setMonitor (hl.imp_right (·.trans h.depth)) (Blocker.heap_of_notification ha)

end Scene.Stands

namespace Prog

variable {α : Type} {d : Nat} {s : Scene}

theorem meets_act_locking {f : Machine → α × Machine} {Q : α → Scene → Prop}
    (hs : s.Stands o i d)
    (h : ∀ s' : Scene, s'.Stands o i d → s'.machine.Locks o i (f s'.machine).2 ∧
      Q (f s'.machine).1 (s'.become (f s'.machine).2)) :
    (act f).Meets (.locking o i) Q s := by
  intro s' hr
  have hf := h s' (hs.stable hr)
  exact ⟨fun _ => hf.1, hf.2⟩

theorem meets_read_locking {f : Machine → α} {Q : α → Scene → Prop} (hs : s.Stands o i d)
    (h : ∀ s' : Scene, s'.Stands o i d → Q (f s'.machine) s') :
    (read f).Meets (.locking o i) Q s :=
  meets_act_locking hs fun s' hs' => ⟨(hs'.unchanged rfl).1, h s' hs'⟩

theorem meets_await_locking {b : Blocker} {Q : Wake → Scene → Prop} (hs : s.Stands o i d)
    (h : ∀ (s' : Scene) w m, s'.Stands o i d → b.attempt s'.machine = some (w, m) →
      s'.machine.Locks o i m ∧ Q w (s'.become m)) :
    (await b).Meets (.locking o i) Q s := by
  intro s' w m hr ha
  have hf := h s' w m (hs.stable hr) ha
  exact ⟨fun _ => hf.1, hf.2⟩

theorem meets_enterMonitor (hs : s.Stands o i d) :
    (enterMonitor i o).Meets (.locking o i)
      (fun r s' => s'.Stands o i (if r.isOk then d + 1 else d)) s := by
  rw [enterMonitor, meets_bind]
  refine meets_await_locking hs fun s' w m hs' ha => ?_
  simp only [Blocker.attempt] at ha
  split at ha
  case h_1 x hx =>
    cases ha
    have hc := Monitor.changes_enter hx
    exact hs'.setMonitor ⟨hc.1, hc.2.trans (congrArg (· + 1) hs'.depth)⟩ rfl
  case h_2 =>
    split at ha
    · cases ha
      exact hs'.unchanged rfl
    · cases ha

theorem meets_actOn_locking {f : Monitor → Option Monitor} {Q : Bool → Scene → Prop}
    {R : Nat → Prop} (hs : s.Stands o i d)
    (hf : ∀ x x' : Monitor, x.Balanced → x.depthOf i = d → f x = some x' →
      x.Changes i x' ∧ R (x'.depthOf i))
    (ht : ∀ (s' : Scene) e, R e → s'.Stands o i e → Q true s')
    (hq : ∀ s' : Scene, s'.Stands o i d → Q false s') :
    (act (·.actOn o f)).Meets (.locking o i) Q s := by
  refine meets_act_locking hs fun s' hs' => ?_
  cases hx : f (s'.machine.monitorOf o) with
  | some x =>
    have hx' := hf _ x hs'.lockable.balanced hs'.depth hx
    have hm := hs'.setMonitor ⟨hx'.1, rfl⟩ rfl
    simp only [Machine.actOn, hx]
    exact ⟨hm.1, ht _ _ hx'.2 hm.2⟩
  | none =>
    simp only [Machine.actOn, hx]
    exact ⟨hs'.attachMonitor.1, hq _ hs'.attachMonitor.2⟩

theorem meets_exitMonitor (hs : s.Stands o i d) :
    (exitMonitor i o true).Meets (.locking o i)
      (fun r s' => ∃ e, s'.Stands o i e ∧ if r.isOk then e + 1 = d else e = d) s := by
  rw [exitMonitor, meets_bind]
  refine meets_actOn_locking hs (fun x x' hb hd hx => ?_) (fun s' e he hs' => ⟨e, hs', he⟩)
    fun s' hs' => ⟨d, hs', rfl⟩
  exact hd ▸ Monitor.changes_exit hb hx

theorem meets_notify (hs : s.Stands o i d) (all : Bool) :
    (notify i o all).Meets (.locking o i) (fun _ s' => s'.Stands o i d) s := by
  rw [notify, meets_bind]
  refine meets_actOn_locking (R := (· = d)) hs (fun x x' hb hd hx => ?_)
    (fun s' e he hs' => he ▸ hs') fun s' hs' => hs'
  exact hd ▸ Monitor.changes_notify hb hx

theorem meets_waitOn (hs : s.Stands o i d) (millis : Int64) (nanos : Int32) :
    (waitOn i o millis nanos).Meets (.locking o i) (fun _ s' => s'.Stands o i d) s := by
  rw [waitOn, meets_bind]
  refine meets_act_locking hs fun s1 h1 => ⟨h1.attachMonitor.1, ?_⟩
  rw [meets_bind]
  refine meets_read_locking h1.attachMonitor.2 fun s2 h2 => ?_
  dsimp only
  split
  case isTrue => exact h2
  case isFalse hh =>
    have hd : 0 < d := h2.isHeldBy_iff.1 (by simpa using hh)
    rw [meets_bind]
    refine meets_act_locking h2 fun s3 h3 => ?_
    have hi : s3.Brings o i d (s3.machine.takeInterrupt i).2 := h3.unchanged rfl
    refine ⟨hi.1, ?_⟩
    split
    case isTrue => exact hi.2
    case isFalse =>
      rw [meets_bind]
      refine meets_read_locking hi.2 fun s4 h4 => ?_
      rw [meets_bind]
      refine meets_act_locking h4 fun s5 h5 => ?_
      -- The depth that the wait gives up is the one that it takes the lock at again.
      have hh5 := h5.isHeldBy_iff.2 hd
      have hc : (park o s5.machine).1.2 = d :=
        (Monitor.count_eq_depthOf hh5).trans h5.depth
      have hp : s5.Brings o i 0 (park o s5.machine).2 :=
        h5.setMonitor (Monitor.changes_park hh5) rfl
      refine ⟨hp.1, ?_⟩
      rw [meets_bind]
      refine meets_await_locking hp.2 fun s6 w m h6 ha => ⟨(h6.notification ha).1, ?_⟩
      rw [meets_bind]
      refine meets_await_locking (h6.notification ha).2 fun s7 w' m' h7 ha' => ?_
      obtain ⟨x, hx, he⟩ := Option.map_eq_some_iff.1 ha'
      cases he
      have hr := h7.setMonitor (Monitor.changes_retake hd (hc ▸ hx)) rfl
      refine ⟨hr.1, ?_⟩
      rw [meets_bind]
      refine meets_read_locking hr.2 fun s8 h8 => ?_
      split <;> exact h8

def IsLast : Prog α → Prop
  | .step _ next => ∀ b, ∃ r, next b = .done r
  | .wait _ next => ∀ w, ∃ r, next w = .done r
  | _ => False

-- A computation that does nothing but refuse, whatever the machine, as long as the thread has not
-- the lock. All that it may change is that the object gets the monitor that it is asked for.
def Denies (o : ObjectId) (i : Nat) (a : MonitorAction) : Prog (Except Trap α) → Prop
  | .done r => r = .error (.raise (.notHeld a))
  | .step f next => ∀ m, (m.monitorOf o).isHeldBy i = false →
      ((f m).2 = m ∨ (f m).2 = m.attachMonitor o) ∧ (next (f m).1).Denies o i a
  | _ => False

def answer? : Prog α → Option α
  | .done a => some a
  | _ => none

end Prog

inductive MonitorCall where
  | enter
  | exit
  | notify (all : Bool)
  | wait (millis : Int64) (nanos : Int32)
  deriving DecidableEq

namespace MonitorCall

abbrev Answer := Except Trap (Option WaitStatus)

def on (c : MonitorCall) (o : ObjectId) (thread : Nat) : Prog Answer :=
  match c with
  | .enter => do return (← Prog.enterMonitor thread o).map fun _ => none
  | .exit => do return (← Prog.exitMonitor thread o true).map fun _ => none
  | .notify all => do return (← Prog.notify thread o all).map fun _ => none
  | .wait millis nanos => do return (← Prog.waitOn thread o millis nanos).map some

def action? : MonitorCall → Option MonitorAction
  | .enter => none
  | .exit => some .exit
  | .notify _ => some .notify
  | .wait _ _ => some .wait

def isWait : MonitorCall → Bool
  | .wait _ _ => true
  | _ => false

def Leads (c : MonitorCall) (r : Answer) (d e : Nat) : Prop :=
  match c, r with
  | .enter, .ok _ => e = d + 1
  | .exit, .ok _ => e + 1 = d
  | _, _ => e = d

theorem meets_on {d : Nat} {s : Scene} (hs : s.Stands o i d) (c : MonitorCall) :
    (c.on o i).Meets (.locking o i) (fun r s' => ∃ e, c.Leads r d e ∧ s'.Stands o i e) s := by
  cases c with
  | enter =>
    refine Prog.meets_bind.2 ((Prog.meets_enterMonitor hs).mono fun r s' h => ?_)
    cases r <;> exact ⟨_, rfl, h⟩
  | exit =>
    refine Prog.meets_bind.2 ((Prog.meets_exitMonitor hs).mono fun r s' h => ?_)
    cases r <;> exact h.imp fun e he => he.symm
  | notify all =>
    refine Prog.meets_bind.2 ((Prog.meets_notify hs all).mono fun r s' h => ?_)
    exact ⟨d, rfl, h⟩
  | wait millis nanos =>
    refine Prog.meets_bind.2 ((Prog.meets_waitOn hs millis nanos).mono fun r s' h => ?_)
    exact ⟨d, rfl, h⟩

theorem isLast_on {c : MonitorCall} (hc : c.isWait = false) (o : ObjectId) (i : Nat) :
    (c.on o i).IsLast := by
  cases c with
  | enter =>
    intro w
    cases w <;> exact ⟨_, rfl⟩
  | exit =>
    intro b
    cases b <;> exact ⟨_, rfl⟩
  | notify all =>
    intro b
    cases b <;> exact ⟨_, rfl⟩
  | wait => cases hc

theorem denies_on {c : MonitorCall} {a : MonitorAction} (ha : c.action? = some a)
    (o : ObjectId) (i : Nat) : (c.on o i).Denies o i a := by
  cases c with
  | enter => cases ha
  | exit =>
    cases ha
    intro m hm
    have hf : m.actOn o (·.exit? i true) = (false, m.attachMonitor o) := by
      simp only [Machine.actOn, Monitor.exit?_eq_none hm]
    dsimp only
    rw [hf]
    exact ⟨.inr rfl, rfl⟩
  | notify all =>
    cases ha
    intro m hm
    have hf : m.actOn o (·.notify? i all) = (false, m.attachMonitor o) := by
      simp only [Machine.actOn, Monitor.notify?_eq_none hm]
    dsimp only
    rw [hf]
    exact ⟨.inr rfl, rfl⟩
  | wait millis nanos =>
    cases ha
    intro m hm
    refine ⟨.inr rfl, fun m' hm' => ⟨.inl rfl, ?_⟩⟩
    dsimp only
    rw [hm']
    rfl

end MonitorCall

theorem Prog.Denies.moves {α : Type} {a : MonitorAction} {p q : Prog (Except Trap α)}
    {s s' : Scene} (h : p.Denies o i a) (hs : s.Stands o i 0) (hm : p.Moves i s q s') :
    s'.Stands o i 0 ∧ q.Denies o i a := by
  cases hm with
  | step f next =>
    have hf := h s.machine (Bool.eq_false_iff.2 fun hh => Nat.lt_irrefl 0 (hs.isHeldBy_iff.1 hh))
    refine ⟨?_, hf.2⟩
    rcases hf.1 with he | he
    · rw [he]
      exact hs
    · rw [he]
      exact hs.attachMonitor.2
  | sign => exact h.elim
  | wait => exact h.elim

end BytecodeMachine
