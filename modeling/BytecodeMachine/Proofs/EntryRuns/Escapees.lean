import BytecodeMachine.Proofs.EntryRuns.Blame

namespace BytecodeMachine

variable {α β : Type} {i : Nat} {t t1 t2 : Thread} {s s1 s2 : Scene} {libraries : List Library}
  {left later : Option ObjectId}

def Machine.Knows (m : Machine) (x : Option ObjectId) : Prop := ∀ o, x = some o → ∃ c, m.IsOf o c

theorem Machine.Knows.carries {m m' : Machine} {x : Option ObjectId} (h : m.Knows x)
    (hc : m.Carries m') : m'.Knows x :=
  fun o ho => (h o ho).imp fun c => hc.isOf o c

theorem Machine.Knows.or {m : Machine} {x y : Option ObjectId} (hx : m.Knows x) (hy : m.Knows y) :
    m.Knows (x.or y) := by
  cases x with
  | none => exact hy
  | some o => exact hx

namespace Exec

open Machine

def escapee : Except Trap (Option ObjectId) → Option ObjectId
  | .ok left => left
  | .error _ => none

structure Onward (libraries : List Library) (i : Nat) (t : Thread) (s : Scene)
    (left : Option ObjectId) (t' : Thread) (s' : Scene) : Prop where
  stays : Over libraries i t' s'
  carries : s.machine.Carries s'.machine
  uncaught : t'.uncaught = left.or t.uncaught
  present : s'.machine.Knows left

namespace Onward

theorem refl (h : Over libraries i t s) : Onward libraries i t s none t s where
  stays := h
  carries := upkept_carries.refl _
  uncaught := rfl
  present := nofun

theorem trans (h : Onward libraries i t s left t1 s1) (h' : Onward libraries i t1 s1 later t2 s2) :
    Onward libraries i t s (later.or left) t2 s2 where
  stays := h'.stays
  carries := upkept_carries.trans h.carries h'.carries
  uncaught := by rw [h'.uncaught, h.uncaught, Option.or_assoc]
  present := h'.present.or (h.present.carries h'.carries)

theorem after (h : Onward libraries i t s none t1 s1) (h' : Onward libraries i t1 s1 left t2 s2) :
    Onward libraries i t s left t2 s2 := by
  have h'' := h.trans h'
  rwa [Option.or_none] at h''

theorem along (h : Onward libraries i t s left t1 s1) (hc : s1.machine.Carries s2.machine) :
    Onward libraries i t s left t1 s2 where
  stays := h.stays.along upkept_carries hc
  carries := upkept_carries.trans h.carries hc
  uncaught := h.uncaught
  present := h.present.carries hc

theorem knows (h : Onward libraries i t s left t1 s1) (hp : s.machine.Knows t.uncaught) :
    s1.machine.Knows t1.uncaught :=
  h.uncaught ▸ h.present.or (hp.carries h.carries)

theorem put (h : Onward libraries i t s left t1 s1) (hid : t2.id = t1.id)
    (hu : t2.uncaught = t1.uncaught) : Onward libraries i t s left t2 s1 :=
  ⟨⟨hid.trans h.stays.1, h.stays.2⟩, h.carries, hu.trans h.uncaught, h.present⟩

end Onward

structure Outward (libraries : List Library) (i : Nat) (t : Thread) (s : Scene)
    (r : Except Trap (Option ObjectId)) (t' : Thread) (s' : Scene) : Prop where
  onward : Onward libraries i t s (escapee r) t' s'
  frames : escapee r ≠ none → t'.frames = []

theorem Onward.outward {r : Except Trap (Option ObjectId)}
    (h : Onward libraries i t s none t1 s1) (hr : escapee r = none) :
    Outward libraries i t s r t1 s1 where
  onward := hr ▸ h
  frames hn := absurd hr hn

section Pieces

variable {e : Engine}

theorem Blameless.onward {x : Exec α} (hx : Blameless x) (hs : Over libraries i t s)
    (hw : x.Woven (fun n => ∃ c, ClassTable.Loads libraries n c) i) :
    x.Meets (.along Carries i) t (fun _ t' s' => Onward libraries i t s none t' s') s :=
  (((hw.meets_along upkept_carries hs).since upkept_carries).and_free (hx t i s)).mono
    fun _ _ _ h => ⟨h.1.1, h.1.2, h.2, nofun⟩

theorem Built.onward (hb : e.Balanced) (hw : e.Woven) {r : Reach} {x : Exec α}
    (h : Built e .every r [] x) (hs : Over libraries i t s) :
    x.Meets (.along Carries i) t (fun _ t' s' => Onward libraries i t s none t' s') s :=
  (Blameless.built hb h).onward hs (h.woven hw)

theorem Onward.bind {x : Exec α} {f : α → Exec β} {Q : Post β}
    (h : Onward libraries i t s none t1 s1) (hx : Blameless x)
    (hw : x.Woven (fun n => ∃ c, ClassTable.Loads libraries n c) i)
    (hf : ∀ a t2 s2, Onward libraries i t s none t2 s2 → (f a).Meets (.along Carries i) t2 Q s2)
    (hq : ∀ trap t2 s2, Onward libraries i t s none t2 s2 → Q (.error trap) t2 s2) :
    (x >>= f).Meets (.along Carries i) t1 Q s1 := by
  refine meets_bind.2 ((hx.onward h.stays hw).mono fun r t2 s2 h2 => ?_)
  cases r with
  | error trap => exact hq trap t2 s2 (h.after h2)
  | ok a => exact hf a t2 s2 (h.after h2)

theorem read_bind_carries {f : Machine → β} {g : β → Exec α} {Q : Post α}
    (h : ∀ s1, s.machine.Carries s1.machine →
      (g (f s1.machine)).Meets (.along Carries i) t Q s1) :
    (read f >>= g).Meets (.along Carries i) t Q s :=
  meets_bind.2 (meets_lift.2 fun s1 h1 => ⟨upkept_carries.refl _, h s1 h1⟩)

theorem classOf_onward (o : ObjectId) (hs : Over libraries i t s) :
    (classOf o).Meets (.along Carries i) t (fun r t' s' =>
      Onward libraries i t s none t' s' ∧ (∀ c, r = .ok c → s'.machine.IsOf o c.name) ∧
        ((∃ c, s.machine.IsOf o c) → ∃ c, r = .ok c)) s := by
  unfold classOf object
  rw [bind_assoc]
  refine read_bind_carries fun s1 h1 => ?_
  have next := (Onward.refl hs).along h1
  cases hx : s1.machine.heap.get? o with
  | none =>
    refine ⟨next, nofun, fun ⟨c, hc⟩ => ?_⟩
    obtain ⟨x, hx', -⟩ := h1.isOf o c hc
    cases hx.symm.trans hx'
  | some x =>
    refine ⟨next, fun c hc => ?_, fun _ => ⟨_, rfl⟩⟩
    cases hc
    exact ⟨x, hx, rfl⟩

theorem uncaught_records (hb : e.Balanced) (o : ObjectId) :
    (uncaught e o).Meets (.free i) t (fun r t' _ =>
      t'.uncaught = (escapee (r.map fun _ => some o)).or t.uncaught) s := by
  have next {β : Type} {x : Exec β} {f : β → Exec Unit} {t1 : Thread} {s1 : Scene}
      (hx : Blameless x) (h : t1.uncaught = t.uncaught)
      (hf : ∀ a t2 s2, t2.uncaught = t.uncaught → (f a).Meets (.free i) t2 (fun r t' _ =>
        t'.uncaught = (escapee (r.map fun _ => some o)).or t.uncaught) s2) :
      (x >>= f).Meets (.free i) t1 (fun r t' _ =>
        t'.uncaught = (escapee (r.map fun _ => some o)).or t.uncaught) s1 := by
    refine meets_bind.2 ((hx t1 i s1).mono fun r t2 s2 h2 => ?_)
    cases r with
    | error trap => exact h2.trans h
    | ok a => exact hf a t2 s2 (h2.trans h)
  have host {β : Type} {x : Exec β} (h : Built e .every .host [] x) : Blameless x := .built hb h
  refine next (host (.classOf o)) rfl fun c t1 s1 h1 => ?_
  refine next (host (.throwableMessage? o)) h1 fun message t1 s1 h1 => ?_
  refine next .get h1 fun _ t1 s1 h1 => next (.lift _) h1 fun _ t1 s1 h1 => ?_
  refine next (host (.runHandler o)) h1 fun _ t1 s1 h1 => next .get h1 fun _ t1 s1 h1 => ?_
  refine next (.modify fun _ => rfl) h1 fun _ t1 s1 h1 => next (.lift _) h1 fun _ t1 s1 h1 => ?_
  exact rfl

theorem uncaught_onward (hb : e.Balanced) (hw : e.Woven) (o : ObjectId)
    (hs : Over libraries i t s) :
    (uncaught e o).Meets (.along Carries i) t (fun r t' s' =>
      Onward libraries i t s (escapee (r.map fun _ => some o)) t' s') s := by
  have present : (uncaught e o).Meets (.along Carries i) t (fun r t' s' =>
      (Over libraries i t' s' ∧ s.machine.Carries s'.machine) ∧
        (r = .ok () → ∃ c, s'.machine.IsOf o c)) s := by
    obtain ⟨f, hf, hr⟩ := Reporting.exists_uncaught (e := e) o
    rw [hf]
    refine meets_bind.2 ((classOf_onward o hs).mono fun r t1 s1 h1 => ?_)
    cases r with
    | error trap => exact ⟨⟨h1.1.stays, h1.1.carries⟩, nofun⟩
    | ok c =>
      rw [after_ok]
      have hrest := ((hr c).woven hw).meets_along upkept_carries h1.1.stays
      refine (hrest.since upkept_carries).mono fun r t2 s2 h2 => ⟨⟨h2.1, ?_⟩, fun _ => ?_⟩
      · exact upkept_carries.trans h1.1.carries h2.2
      · exact ⟨c.name, h2.2.isOf o c.name (h1.2.1 c rfl)⟩
  refine (present.and_free (uncaught_records hb o)).mono fun r t' s' h => ?_
  refine ⟨h.1.1.1, h.1.1.2, h.2, fun o' ho => ?_⟩
  cases r with
  | error trap => cases ho
  | ok _ =>
    cases ho
    exact h.1.2 rfl

theorem uncaught_outermost (hb : e.Balanced) (hw : e.Woven) (o : ObjectId)
    (h : Onward libraries i t s none t1 s1) (hf : t1.frames = []) :
    (uncaught e o).Meets (.along Carries i) t1 (fun r t' s' => Onward libraries i t s
      (escapee (r.map fun _ => if t'.frames.isEmpty then some o else none)) t' s') s1 := by
  have hr : Reporting e (uncaught e o) := .uncaught o
  refine ((uncaught_onward hb hw o h.stays).and_free (hr.frames hb t1 i s1)).mono
    fun r t2 s2 h2 => ?_
  cases r with
  | error trap => exact h.after h2.1
  | ok _ =>
    rw [Except.map, h2.2, hf]
    exact h.after h2.1

theorem dispatch_onward (hb : e.Balanced) (hw : e.Woven) (o : ObjectId)
    (hs : Over libraries i t s) :
    (dispatch e o).Meets (.along Carries i) t (fun r t' s' => Onward libraries i t s
      (escapee (r.map fun _ => if t'.frames.isEmpty then some o else none)) t' s') s := by
  have host {β : Type} {x : Exec β} (h : Built e .every .host [] x) :
      Blameless x ∧ x.Woven (fun n => ∃ c, ClassTable.Loads libraries n c) i :=
    ⟨.built hb h, h.woven hw⟩
  refine meets_bind.2 (meets_get.2 ?_)
  rw [after_ok]
  split
  · exact .refl hs
  · split
    · exact (Onward.refl hs).put rfl rfl
    · have hc := host (.classOf o)
      refine (Onward.refl hs).bind hc.1 hc.2 (fun c t1 s1 h1 => ?_) fun _ _ _ h1 => h1
      rename_i f rest _ _
      have hh := host (.findHandler c ((f.code?.map (·.handlersAt f.lastPc)).getD []))
      refine h1.bind hh.1 hh.2 (fun found t2 s2 h2 => ?_) fun _ _ _ h2 => h2
      cases found with
      | some target =>
        exact h2.bind (.lift _) (.pass _) (fun _ _ _ h3 => h3.put rfl rfl) fun _ _ _ h3 => h3
      | none =>
        refine meets_bind.2 (meets_modify.2 ?_)
        rw [after_ok]
        cases rest with
        | cons caller rest => exact h2.put rfl rfl
        | nil =>
          refine meets_bind.2 (meets_modify.2 ?_)
          rw [after_ok]
          exact uncaught_outermost hb hw o (h2.put rfl rfl) rfl

theorem pursue_outward (hb : e.Balanced) (hw : e.Woven) (trap : Trap)
    (h : Onward libraries i t s none t1 s1) :
    (pursue e trap).Meets (.along Carries i) t1
      (fun r t' s' => Outward libraries i t s r t' s') s1 := by
  have give {trap : Trap} {t2 : Thread} {s2 : Scene} (h : Onward libraries i t s none t2 s2) :
      (do abort trap 0; pure none : Exec (Option ObjectId)).Meets (.along Carries i) t2
        (fun r t' s' => Outward libraries i t s r t' s') s2 :=
    h.bind (.abort trap 0) (woven_abort hw trap 0) (fun _ _ _ h => h.outward rfl)
      fun _ _ _ h => h.outward rfl
  have ht : Built e .every .host [] (handleTrap.thrown e trap) := .thrown trap
  refine meets_bind.2 (meets_attempt.2 ((ht.onward hb hw h.stays).mono fun r t2 s2 h2 => ?_))
  rw [after_ok]
  cases r with
  | error other => exact give (h.after h2)
  | ok o =>
    refine meets_bind.2 (meets_attempt.2
      ((dispatch_onward hb hw o h2.stays).mono fun r t3 s3 h3 => ?_))
    rw [after_ok]
    have next := (h.after h2).after h3
    cases r with
    | error other => exact give next
    | ok _ =>
      refine ⟨next, fun hn => ?_⟩
      change (if t3.frames.isEmpty = true then some o else none) ≠ none at hn
      simpa using hn

theorem stepOn_outward (hb : e.Balanced) (hw : e.Woven) (h : Onward libraries i t s none t1 s1) :
    (stepOn e).Meets (.along Carries i) t1
      (fun r t' s' => Outward libraries i t s r t' s') s1 := by
  refine meets_bind.2 (meets_attempt.2
    (((Blameless.step hb).onward h.stays (woven_step hw)).mono fun r t2 s2 h2 => ?_))
  rw [after_ok]
  cases r with
  | ok _ => exact (h.after h2).outward rfl
  | error trap =>
    exact (h.after h2).bind (.lift _) (.pass _) (fun _ _ _ h3 => pursue_outward hb hw trap h3)
      fun _ _ _ h3 => h3.outward rfl

end Pieces

section Runs

theorem follow_frameless {k : Contract} (bound : Nat) (hf : t.frames = []) :
    (follow bound).Meets k t (fun r t' s' => r = .ok none ∧ t' = t ∧ s' = s) s := by
  cases bound with
  | zero => trivial
  | succ bound =>
    have hw : t.isWithin 0 = true := by
      rw [Thread.isWithin_iff, Thread.depth, hf]
      exact Nat.le_refl 0
    refine meets_bind.2 (meets_get.2 ?_)
    rw [after_ok, if_pos hw]
    exact ⟨rfl, rfl, rfl⟩

-- By induction on the steps: an object leaves the last frame in this one, or in those that are left.
theorem follow_onward (bound : Nat) (hs : Over libraries i t s) :
    (follow bound).Meets (.along Carries i) t
      (fun r t' s' => Onward libraries i t s (escapee r) t' s') s := by
  induction bound generalizing t s with
  | zero => trivial
  | succ bound ih =>
    have hb := Engine.balanced_bounded bound
    have hw := Engine.woven_bounded bound
    refine meets_bind.2 (meets_get.2 ?_)
    rw [after_ok]
    split
    · exact .refl hs
    · refine (Onward.refl hs).bind (.lift _) (.lift Prog.isMild_turn) (fun _ t1 s1 h1 => ?_)
        fun _ _ _ h1 => h1
      refine h1.bind (.bind .get fun _ => .lift _) (.get fun _ _ => .read _)
        (fun stop t2 s2 h2 => ?_) fun _ _ _ h2 => h2
      split
      · exact h2.bind (.abort .exit 0) (woven_abort hw .exit 0) (fun _ _ _ h3 => h3)
          fun _ _ _ h3 => h3
      · refine meets_bind.2 ((stepOn_outward hb hw h2).mono fun r t3 s3 h3 => ?_)
        rcases r with trap | _ | o
        · exact h3.onward
        · rw [after_ok]
          refine meets_bind.2 ((ih h3.onward.stays).mono fun r t4 s4 h4 => ?_)
          have next := Onward.after h3.onward h4
          rcases r with trap | later
          · exact next
          · rw [after_ok, Option.or_none]
            exact next
        · rw [after_ok]
          refine meets_bind.2 ((follow_frameless bound (h3.frames nofun)).mono fun r t4 s4 h4 => ?_)
          obtain ⟨rfl, rfl, rfl⟩ := h4
          exact h3.onward

theorem followEntry_onward (bound : Nat) (p : EntryPoint) (arguments : List String)
    (hs : Over libraries i t s) :
    (followEntry bound p arguments).Meets (.along Carries i) t
      (fun r t' s' => Onward libraries i t s (escapee r) t' s') s := by
  have hb := Engine.balanced_bounded bound
  have hw := Engine.woven_bounded bound
  have enter : Built (.bounded bound) .every .call [] (enterEntry (.bounded bound) p arguments) :=
    .enterEntry p arguments
  have hrun : (do enterEntry (.bounded bound) p arguments; follow bound).Meets (.along Carries i) t
      (fun r t' s' => Onward libraries i t s (escapee r) t' s') s :=
    (Onward.refl hs).bind (.built hb enter) (enter.woven hw)
      (fun _ _ _ h1 => (follow_onward bound h1.stays).mono fun _ _ _ h2 => h1.after h2)
      fun _ _ _ h1 => h1
  refine meets_bind.2 (meets_attempt.2 (hrun.mono fun r t1 s1 h1 => ?_))
  rw [after_ok]
  rcases r with trap | left
  · have ht : Built (.bounded bound) .every .host [] (handleTrap.thrown (.bounded bound) trap) :=
      .thrown trap
    refine h1.bind (.built hb ht) (ht.woven hw) (fun o t2 s2 h2 => ?_) fun _ _ _ h2 => h2
    refine meets_bind.2 ((uncaught_onward hb hw o h2.stays).mono fun r t3 s3 h3 => ?_)
    cases r with
    | error other => exact h2.after h3
    | ok _ => exact h2.after h3
  · exact h1

end Runs

end Exec

end BytecodeMachine
