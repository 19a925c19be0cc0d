import BytecodeMachine.Exec.Fields

namespace BytecodeMachine

variable {α β : Type}

structure Scene where
  machine : Machine
  passed : List (Nat × Sign)

namespace Scene

def become (m : Machine) (s : Scene) : Scene := { s with machine := m }

def pass (thread : Nat) (x : Sign) (s : Scene) : Scene :=
  ⟨s.machine.pass x, (thread, x) :: s.passed⟩

end Scene

structure Contract where
  thread : Nat
  rely : Scene → Scene → Prop
  guarantee : Scene → Scene → Prop

namespace Prog

def Meets (k : Contract) (Q : α → Scene → Prop) : Prog α → Scene → Prop
  | .done a, s => Q a s
  | .step f next, s =>
      ∀ s', k.rely s s' →
        k.guarantee s' (s'.become (f s'.machine).2) ∧
          (next (f s'.machine).1).Meets k Q (s'.become (f s'.machine).2)
  | .sign x next, s =>
      ∀ s', k.rely s s' →
        k.guarantee s' (s'.pass k.thread x) ∧ next.Meets k Q (s'.pass k.thread x)
  | .wait b next, s =>
      ∀ s' w m, k.rely s s' → b.attempt s'.machine = some (w, m) →
        k.guarantee s' (s'.become m) ∧ (next w).Meets k Q (s'.become m)
  | .starved, _ => True

theorem Meets.mono {k : Contract} {Q Q' : α → Scene → Prop} {p : Prog α} {s : Scene}
    (h : p.Meets k Q s) (hq : ∀ a s, Q a s → Q' a s) : p.Meets k Q' s := by
  induction p generalizing s with
  | done a => exact hq a s h
  | step f next ih =>
    intro s' hr
    exact ⟨(h s' hr).1, ih _ (h s' hr).2⟩
  | sign x next ih =>
    intro s' hr
    exact ⟨(h s' hr).1, ih (h s' hr).2⟩
  | wait b next ih =>
    intro s' w m hr ha
    exact ⟨(h s' w m hr ha).1, ih _ (h s' w m hr ha).2⟩
  | starved => trivial

theorem Meets.and {k : Contract} {Q Q' : α → Scene → Prop} {p : Prog α} {s : Scene}
    (h : p.Meets k Q s) (h' : p.Meets k Q' s) : p.Meets k (fun a s => Q a s ∧ Q' a s) s := by
  induction p generalizing s with
  | done a => exact ⟨h, h'⟩
  | step f next ih =>
    intro s' hr
    exact ⟨(h s' hr).1, ih _ (h s' hr).2 (h' s' hr).2⟩
  | sign x next ih =>
    intro s' hr
    exact ⟨(h s' hr).1, ih (h s' hr).2 (h' s' hr).2⟩
  | wait b next ih =>
    intro s' w m hr ha
    exact ⟨(h s' w m hr ha).1, ih _ (h s' w m hr ha).2 (h' s' w m hr ha).2⟩
  | starved => trivial

theorem meets_bind {k : Contract} {Q : β → Scene → Prop} {p : Prog α} {f : α → Prog β}
    {s : Scene} :
    (p >>= f).Meets k Q s ↔ p.Meets k (fun a s' => (f a).Meets k Q s') s := by
  change (p.bind f).Meets k Q s ↔ _
  induction p generalizing s with
  | done a => exact Iff.rfl
  | step g next ih => simp only [bind, Meets, ih]
  | sign x next ih => simp only [bind, Meets, ih]
  | wait b next ih => simp only [bind, Meets, ih]
  | starved => exact Iff.rfl

end Prog

namespace Exec

abbrev Post (α : Type) := Except Trap α → Thread → Scene → Prop

def Post.after (Q : Post β) (next : α → Thread → Scene → Prop) : Post α
  | .ok a => next a
  | .error trap => Q (.error trap)

@[simp] theorem after_ok (Q : Post β) (next : α → Thread → Scene → Prop) (a : α) :
    Q.after next (.ok a) = next a := rfl

@[simp] theorem after_error (Q : Post β) (next : α → Thread → Scene → Prop) (trap : Trap) :
    Q.after next (.error trap) = Q (.error trap) := rfl

def Meets (k : Contract) (x : Exec α) (t : Thread) (Q : Post α) (s : Scene) : Prop :=
  (x.on t).Meets k (fun r => Q r.1 r.2) s

variable {k : Contract} {t : Thread} {s : Scene}

theorem Meets.mono {x : Exec α} {Q Q' : Post α} (h : x.Meets k t Q s)
    (hq : ∀ r t' s', Q r t' s' → Q' r t' s') : x.Meets k t Q' s :=
  Prog.Meets.mono h fun r s' => hq r.1 r.2 s'

theorem Meets.and {x : Exec α} {Q Q' : Post α} (h : x.Meets k t Q s) (h' : x.Meets k t Q' s) :
    x.Meets k t (fun r t' s' => Q r t' s' ∧ Q' r t' s') s :=
  Prog.Meets.and h h'

@[simp] theorem meets_pure {a : α} {Q : Post α} :
    (pure a : Exec α).Meets k t Q s ↔ Q (.ok a) t s := Iff.rfl

@[simp] theorem meets_throw {trap : Trap} {Q : Post α} :
    (throw trap : Exec α).Meets k t Q s ↔ Q (.error trap) t s := Iff.rfl

@[simp] theorem meets_raise {c : Cause} {Q : Post α} :
    (raise c : Exec α).Meets k t Q s ↔ Q (.error (.raise c)) t s := Iff.rfl

@[simp] theorem meets_fail {f : Fault} {Q : Post α} :
    (fail f : Exec α).Meets k t Q s ↔ Q (.error (.fatal f)) t s := Iff.rfl

@[simp] theorem meets_ofTrap {r : Except Trap α} {Q : Post α} :
    (ofTrap r).Meets k t Q s ↔ Q r t s := by
  cases r <;> exact Iff.rfl

@[simp] theorem meets_get {Q : Post Thread} :
    (get : Exec Thread).Meets k t Q s ↔ Q (.ok t) t s := Iff.rfl

@[simp] theorem meets_set {u : Thread} {Q : Post Unit} :
    (set u : Exec PUnit).Meets k t Q s ↔ Q (.ok ()) u s := Iff.rfl

@[simp] theorem meets_modify {f : Thread → Thread} {Q : Post Unit} :
    (modify f : Exec PUnit).Meets k t Q s ↔ Q (.ok ()) (f t) s := Iff.rfl

@[simp] theorem meets_bind {x : Exec α} {f : α → Exec β} {Q : Post β} :
    (x >>= f).Meets k t Q s ↔
      x.Meets k t (Q.after fun a t' s' => (f a).Meets k t' Q s') s := by
  refine Prog.meets_bind.trans ⟨fun h => Prog.Meets.mono h ?_, fun h => Prog.Meets.mono h ?_⟩
  all_goals
    rintro ⟨r, t'⟩ s' h'
    cases r <;> exact h'

theorem meets_lift {p : Prog α} {Q : Post α} :
    (lift p).Meets k t Q s ↔ p.Meets k (fun a => Q (.ok a) t) s :=
  Prog.meets_bind

@[simp] theorem meets_attempt {x : Exec α} {Q : Post (Except Trap α)} :
    (attempt x).Meets k t Q s ↔ x.Meets k t (fun r => Q (.ok r)) s :=
  Prog.meets_bind

@[simp] theorem meets_ending {x : Exec α} {after : Exec Unit} {Q : Post α} :
    (x.ending after).Meets k t Q s ↔
      x.Meets k t (fun r t' s' => after.Meets k t' (Q.after fun _ => Q r) s') s := by
  simp only [ending, meets_bind, meets_attempt, meets_ofTrap, Post.after]

theorem meets_resolve {res : List Library → Resolving α} {Q : Post α} :
    (resolve res).Meets k t Q s ↔
      (Prog.act (·.resolve res)).Meets k
        (fun r => Q (match r with
          | .ok a => .ok a
          | .error e => .error e.trap) t) s := by
  simp only [resolve, meets_bind, act, meets_lift]
  refine ⟨fun h => Prog.Meets.mono h ?_, fun h => Prog.Meets.mono h ?_⟩
  all_goals
    intro r s' h'
    cases r <;> exact h'

theorem meets_locked {x : Exec α} {Q : Post α} :
    (locked x).Meets k t Q s ↔
      (Prog.await (.machineLock t.id)).Meets k
        (fun _ s' => x.Meets k t
          (fun r t' s' => (Prog.update Machine.unlock).Meets k (fun _ => Q r t') s') s') s := by
  simp only [locked, meets_bind, meets_get, after_ok, await, update, meets_lift, meets_ending]

theorem meets_inFrame_cons {a : FrameM α} {Q : Post α} {f : Frame} {rest : List Frame}
    (h : t.frames = f :: rest) :
    (inFrame a).Meets k t Q s ↔
      Q (a.run.run f).1 { t with frames := (a.run.run f).2 :: rest } s := by
  simp only [inFrame, meets_bind, meets_get, after_ok, h]
  exact meets_bind.trans meets_ofTrap

theorem meets_inFrame_nil {a : FrameM α} {Q : Post α} (h : t.frames = []) :
    (inFrame a).Meets k t Q s ↔ Q (.error (.fatal .noFrame)) t s := by
  simp [inFrame, h]

theorem meets_checkFinalWrite_bind {f : Field} {n : MemberName} {g : Unit → Exec β} {Q : Post β}
    (written : (f.isFinal = true → ∃ a, t.activation? = some a ∧ a.method.name = n ∧
      a.klass.name = f.owner) → (g ()).Meets k t Q s)
    (refused : ∀ cause, Q (.error (.raise cause)) t s) :
    (checkFinalWrite f n >>= g).Meets k t Q s := by
  rw [checkFinalWrite, bind_assoc, meets_bind, meets_get, after_ok]
  dsimp only
  split
  · exact refused _
  · rename_i hw
    refine written fun hf => ?_
    simpa [hf, Option.any_eq_true] using hw

end Exec

def Contract.free (thread : Nat) : Contract := ⟨thread, fun _ _ => True, fun _ _ => True⟩

theorem Prog.meets_free {thread : Nat} {Q : α → Scene → Prop} (h : ∀ a s, Q a s) (p : Prog α)
    (s : Scene) : p.Meets (.free thread) Q s := by
  induction p generalizing s with
  | done a => exact h a s
  | step f next ih => exact fun s' _ => ⟨trivial, ih _ _⟩
  | sign x next ih => exact fun s' _ => ⟨trivial, ih _⟩
  | wait b next ih => exact fun s' w m _ _ => ⟨trivial, ih w _⟩
  | starved => trivial

theorem Exec.lift_meets_free {thread : Nat} {t : Thread} {s : Scene} {Q : Post α}
    (h : ∀ a s, Q (.ok a) t s) (p : Prog α) : (lift p).Meets (.free thread) t Q s :=
  meets_lift.2 (Prog.meets_free h p s)

theorem Exec.meets_free {thread : Nat} {t : Thread} {s : Scene} {Q : Post α}
    (h : ∀ r t' s', Q r t' s') (x : Exec α) : x.Meets (.free thread) t Q s := by
  refine Prog.meets_free ?_ _ s
  rintro ⟨r, t'⟩ s'
  exact h r t' s'

theorem Exec.lift_bind_meets_free {thread : Nat} {t : Thread} {s : Scene} {f : α → Exec β}
    {Q : Post β} (h : ∀ a s, (f a).Meets (.free thread) t Q s) (p : Prog α) :
    (lift p >>= f).Meets (.free thread) t Q s :=
  meets_bind.2 (lift_meets_free h p)

theorem Prog.Meets.and_free {k : Contract} {Q Q' : α → Scene → Prop} {p : Prog α} {s : Scene}
    (h : p.Meets k Q s) (h' : p.Meets (.free k.thread) Q' s) :
    p.Meets k (fun a s => Q a s ∧ Q' a s) s := by
  induction p generalizing s with
  | done a => exact ⟨h, h'⟩
  | step f next ih =>
    intro s' hr
    exact ⟨(h s' hr).1, ih _ (h s' hr).2 (h' s' trivial).2⟩
  | sign x next ih =>
    intro s' hr
    exact ⟨(h s' hr).1, ih (h s' hr).2 (h' s' trivial).2⟩
  | wait b next ih =>
    intro s' w m hr ha
    exact ⟨(h s' w m hr ha).1, ih _ (h s' w m hr ha).2 (h' s' w m trivial ha).2⟩
  | starved => trivial

theorem Exec.Meets.and_free {k : Contract} {t : Thread} {s : Scene} {x : Exec α} {Q Q' : Post α}
    (h : x.Meets k t Q s) (h' : x.Meets (.free k.thread) t Q' s) :
    x.Meets k t (fun r t' s' => Q r t' s' ∧ Q' r t' s') s :=
  Prog.Meets.and_free h h'

end BytecodeMachine
