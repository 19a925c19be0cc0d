import BytecodeMachine.Engine
import BytecodeMachine.Proofs.Alone

namespace BytecodeMachine

namespace Machine

variable {α : Type} {m : Machine} {r : List Library → Resolving α} {x : Except LinkError α}

theorem foldl_note {α : Type} (hj : ∀ e, m.journal.note e = m.journal) (f : α → Event) (l : List α) :
    l.foldl (fun m a => m.note (f a)) m = m := by
  induction l with
  | nil => rfl
  | cons a l ih => rwa [List.foldl_cons, show m.note (f a) = m by rw [note, hj]]

theorem resolve_eq {table : ClassTable} (hj : ∀ e, m.journal.note e = m.journal)
    (h : r m.libraries m.classes = (x, table)) : m.resolve r = (x, { m with classes := table }) := by
  rw [resolve, h]
  have hm := foldl_note (m := { m with classes := table }) hj fun e : ClassName × Class => .loaded e.1
  exact congrArg (Prod.mk x) (hm _)

theorem resolve_of_eq (h : r m.libraries m.classes = (x, m.classes)) : m.resolve r = (x, m) := by
  rw [resolve, h]
  simp

end Machine

namespace Exec

variable {α β : Type} {i : Nat} {t : Thread} {s : Scene}

def Ends (x : Exec α) (i : Nat) (t : Thread) (Q : Post α) (s : Scene) : Prop :=
  (x.on t).Ends i (fun r => Q r.1 r.2) s

theorem Ends.mono {x : Exec α} {Q Q' : Post α} (h : x.Ends i t Q s)
    (hq : ∀ r t' s', Q r t' s' → Q' r t' s') : x.Ends i t Q' s :=
  Prog.Ends.mono h fun r s' => hq r.1 r.2 s'

@[simp] theorem ends_pure {a : α} {Q : Post α} :
    (pure a : Exec α).Ends i t Q s ↔ Q (.ok a) t s := Iff.rfl

@[simp] theorem ends_throw {trap : Trap} {Q : Post α} :
    (throw trap : Exec α).Ends i t Q s ↔ Q (.error trap) t s := Iff.rfl

@[simp] theorem ends_raise {c : Cause} {Q : Post α} :
    (raise c : Exec α).Ends i t Q s ↔ Q (.error (.raise c)) t s := Iff.rfl

@[simp] theorem ends_fail {f : Fault} {Q : Post α} :
    (fail f : Exec α).Ends i t Q s ↔ Q (.error (.fatal f)) t s := Iff.rfl

@[simp] theorem ends_ofTrap {r : Except Trap α} {Q : Post α} :
    (ofTrap r).Ends i t Q s ↔ Q r t s := by
  cases r <;> exact Iff.rfl

@[simp] theorem ends_get {Q : Post Thread} :
    (get : Exec Thread).Ends i t Q s ↔ Q (.ok t) t s := Iff.rfl

@[simp] theorem ends_modify {f : Thread → Thread} {Q : Post Unit} :
    (modify f : Exec PUnit).Ends i t Q s ↔ Q (.ok ()) (f t) s := Iff.rfl

@[simp] theorem ends_bind {x : Exec α} {f : α → Exec β} {Q : Post β} :
    (x >>= f).Ends i t Q s ↔
      x.Ends i t (Q.after fun a t' s' => (f a).Ends i t' Q s') s := by
  refine Prog.ends_bind.trans ⟨fun h => Prog.Ends.mono h ?_, fun h => Prog.Ends.mono h ?_⟩
  all_goals
    rintro ⟨r, t'⟩ s' h'
    cases r <;> exact h'

@[simp] theorem ends_read {f : Machine → α} {Q : Post α} :
    (read f).Ends i t Q s ↔ Q (.ok (f s.machine)) t s := Iff.rfl

@[simp] theorem ends_act {f : Machine → α × Machine} {Q : Post α} :
    (act f).Ends i t Q s ↔ Q (.ok (f s.machine).1) t (s.become (f s.machine).2) := Iff.rfl

@[simp] theorem ends_update {f : Machine → Machine} {Q : Post Unit} :
    (update f).Ends i t Q s ↔ Q (.ok ()) t (s.become (f s.machine)) := Iff.rfl

@[simp] theorem ends_pass {x : Sign} {Q : Post Unit} :
    (pass x).Ends i t Q s ↔ Q (.ok ()) t (s.pass i x) := Iff.rfl

@[simp] theorem ends_note {x : Event} {Q : Post Unit} :
    (note x).Ends i t Q s ↔ Q (.ok ()) t (s.pass i (.noted x)) := Iff.rfl

@[simp] theorem ends_attempt {x : Exec α} {Q : Post (Except Trap α)} :
    (attempt x).Ends i t Q s ↔ x.Ends i t (fun r => Q (.ok r)) s :=
  Prog.ends_bind

@[simp] theorem ends_ending {x : Exec α} {after : Exec Unit} {Q : Post α} :
    (x.ending after).Ends i t Q s ↔
      x.Ends i t (fun r t' s' => after.Ends i t' (Q.after fun _ => Q r) s') s := by
  simp only [ending, ends_bind, ends_attempt, ends_ofTrap, Post.after]

theorem ends_turn {Q : Post Unit} (h : Q (.ok ()) t s) : turn.Ends i t Q s :=
  ⟨.granted, s.machine, rfl, h⟩

theorem ends_locked {x : Exec α} {Q : Post α} {m : Machine}
    (hl : s.machine.lock? t.id = some m)
    (h : x.Ends i t (fun r t' s' => Q r t' (s'.become s'.machine.unlock)) (s.become m)) :
    (locked x).Ends i t Q s := by
  simp only [locked, ends_bind, ends_get, after_ok]
  refine ⟨.granted, m, by simp [Blocker.attempt, hl], ?_⟩
  change (x.ending (update Machine.unlock)).Ends i t Q (s.become m)
  exact ends_ending.2 h

theorem ends_resolve {res : List Library → Resolving α} {Q : Post α} {a : α}
    (ha : (res s.machine.libraries s.machine.classes).1 = .ok a)
    (h : Q (.ok a) t (s.become (s.machine.resolve res).2)) : (resolve res).Ends i t Q s := by
  have hr : (s.machine.resolve res).1 = .ok a := ha
  simp only [resolve, ends_bind, ends_act, hr, after_ok]
  exact h

theorem ends_inFrame {a : FrameM α} {Q : Post α} {f : Frame} {rest : List Frame}
    (hf : t.frames = f :: rest)
    (h : Q (a.run.run f).1 { t with frames := (a.run.run f).2 :: rest } s) :
    (inFrame a).Ends i t Q s := by
  simp only [inFrame, ends_bind, ends_get, after_ok, hf]
  exact ends_bind.2 (ends_ofTrap.2 h)

def EndsAt (x : Exec α) (i : Nat) (t : Thread) (m : Machine) (r : Except Trap α) (t' : Thread)
    (m' : Machine) : Prop :=
  ∀ l, x.Ends i t (fun a u s => a = r ∧ u = t' ∧ s.machine = m') ⟨m, l⟩

namespace EndsAt

variable {x : Exec α} {t1 t' : Thread} {m m1 m2 m' : Machine} {r : Except Trap α}

theorem ends (h : x.EndsAt i t m r t' m') {Q : Post α} (hq : ∀ l, Q r t' ⟨m', l⟩)
    (l : List (Nat × Sign)) : x.Ends i t Q ⟨m, l⟩ := by
  refine (h l).mono ?_
  rintro _ _ ⟨_, l'⟩ ⟨rfl, rfl, rfl⟩
  exact hq l'

theorem bind {a : α} {f : α → Exec β} {r : Except Trap β} (hx : x.EndsAt i t m (.ok a) t1 m1)
    (hf : (f a).EndsAt i t1 m1 r t' m') : (x >>= f).EndsAt i t m r t' m' := by
  intro l
  refine ends_bind.2 (hx.ends (fun l => ?_) l)
  exact hf l

theorem attempt_bind {f : Except Trap α → Exec β} {r' : Except Trap β}
    (hx : x.EndsAt i t m r t1 m1) (hf : (f r).EndsAt i t1 m1 r' t' m') :
    (attempt x >>= f).EndsAt i t m r' t' m' := by
  intro l
  refine ends_bind.2 (ends_attempt.2 (hx.ends (fun l => ?_) l))
  exact hf l

theorem of_iterate (n : Nat)
    (h : ∀ l, ∃ l', Prog.iterate i n (x.on t, ⟨m, l⟩) = (.done (r, t'), ⟨m', l'⟩)) :
    x.EndsAt i t m r t' m' := by
  intro l
  obtain ⟨l', h⟩ := h l
  exact Prog.ends_of_iterate h ⟨rfl, rfl, rfl⟩

-- What a reference leads to does not compute.
theorem of_resolve {res : List Library → Resolving β} {a : Except LinkError β} (n k : Nat)
    (ha : m1.resolve res = (a, m2))
    (h : ∀ l, ∃ next l1 l2,
      Prog.iterate i n (x.on t, ⟨m, l⟩) = (.step (·.resolve res) next, ⟨m1, l1⟩) ∧
        Prog.iterate i k (next a, ⟨m2, l1⟩) = (.done (r, t'), ⟨m', l2⟩)) :
    x.EndsAt i t m r t' m' := by
  intro l
  obtain ⟨next, l1, l2, hn, hk⟩ := h l
  refine Prog.ends_of_iterate hn ?_
  rw [Prog.Ends, ha]
  exact Prog.ends_of_iterate hk ⟨rfl, rfl, rfl⟩

section Run

variable {bound limit : Nat}

theorem run_within (h : t.isWithin limit = true) :
    ((Engine.bounded (bound + 1)).run limit).EndsAt i t m (.ok ()) t m := by
  intro l
  change (Exec.run _ limit).Ends i t _ _
  simp [Exec.run, h]

theorem run_step {r : Except Trap Unit} (hw : t.isWithin limit = false)
    (ht : m.shouldTerminate t.id = false)
    (hs : (step (.bounded bound)).EndsAt i t m (.ok ()) t1 m1)
    (hr : ((Engine.bounded bound).run limit).EndsAt i t1 m1 r t' m') :
    ((Engine.bounded (bound + 1)).run limit).EndsAt i t m r t' m' := by
  intro l
  change (Exec.run _ limit).Ends i t _ _
  simp only [Exec.run, ends_bind, ends_get, after_ok, hw, Bool.false_eq_true, if_false]
  refine ends_turn ?_
  simp only [shouldTerminate, ends_bind, ends_get, ends_read, after_ok, ht, Bool.false_eq_true,
    if_false, ends_attempt]
  exact hs.ends (fun l => hr l) l

end Run

end EndsAt

def IsPrompt (x : Exec α) : Prop := ∀ t, (x.on t).IsPrompt

namespace IsPrompt

theorem pure (a : α) : IsPrompt (Pure.pure a) := fun _ => trivial

theorem raise (c : Cause) : IsPrompt (Exec.raise c : Exec α) := fun _ => trivial

theorem fail (f : Fault) : IsPrompt (Exec.fail f : Exec α) := fun _ => trivial

theorem get : IsPrompt (MonadState.get : Exec Thread) := fun _ => trivial

theorem act (f : Machine → α × Machine) : (Exec.act f).IsPrompt := fun _ _ => trivial

theorem read (f : Machine → α) : (Exec.read f).IsPrompt := fun _ _ => trivial

theorem update (f : Machine → Machine) : (Exec.update f).IsPrompt := fun _ _ => trivial

theorem note (e : Event) : (Exec.note e).IsPrompt := fun _ => trivial

theorem bind {x : Exec α} {f : α → Exec β} (hx : x.IsPrompt) (hf : ∀ a, (f a).IsPrompt) :
    (x >>= f).IsPrompt := by
  intro t
  refine Prog.isPrompt_bind (hx t) fun a => ?_
  obtain ⟨_ | a, t⟩ := a
  · trivial
  · exact hf a t

theorem guard {b : Prop} [Decidable b] {x : Exec PUnit} {next : PUnit → Exec α} (hx : x.IsPrompt)
    (hn : ∀ u, (next u).IsPrompt) : (if b then x >>= next else next ()).IsPrompt := by
  split
  · exact hx.bind hn
  · exact hn ()

theorem resolve (res : List Library → Resolving α) : (Exec.resolve res).IsPrompt := by
  intro t r
  cases r <;> trivial

theorem ofTrap (r : Except Trap α) : (Exec.ofTrap r).IsPrompt := by
  intro t
  cases r <;> trivial

theorem ofExcept (r : Except Fault α) : (Exec.ofExcept r).IsPrompt := by
  cases r with
  | ok a => exact pure a
  | error e => exact fail e

theorem object (o : ObjectId) : (Exec.object o).IsPrompt := by
  refine (read _).bind fun found => ?_
  cases found with
  | none => exact fail _
  | some x => exact pure x

theorem inFrame (a : FrameM α) : (Exec.inFrame a).IsPrompt := by
  refine get.bind fun t => ?_
  split
  · exact fail _
  · exact bind (fun _ => trivial) fun _ => ofTrap _

end IsPrompt

end Exec

end BytecodeMachine
