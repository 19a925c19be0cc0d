import BytecodeMachine.Proofs.Construction.Code
import BytecodeMachine.Proofs.Finals.Scenes
import BytecodeMachine.Proofs.Typing.Dispatch

namespace BytecodeMachine

variable {α β : Type}

open InitState

def Frame.Owned (f : Frame) : Prop :=
  ∀ a, f.activation = some a → a.method.owner = a.klass.name

def Thread.Owned (t : Thread) : Prop := ∀ f ∈ t.frames, f.Owned

theorem Frame.Owned.of_activation {f g : Frame} (h : f.Owned) (hg : g.activation = f.activation) :
    g.Owned :=
  fun a ha => h a (hg ▸ ha)

theorem Thread.Owned.of_subset {t t' : Thread} (h : t.Owned) (hs : t'.frames ⊆ t.frames) :
    t'.Owned :=
  fun f hf => h f (hs hf)

theorem Thread.owned_of_frames {t : Thread} {f : Frame} {rest : Frames} (h : t.Owned)
    (hf : t.frames = f :: rest) : f.Owned ∧ ∀ g ∈ rest, g.Owned := by
  rw [Thread.Owned, hf] at h
  exact List.forall_mem_cons.1 h

theorem Thread.Owned.activation {t : Thread} {a : Activation} (h : t.Owned)
    (ha : t.activation? = some a) : a.method.owner = a.klass.name := by
  obtain ⟨f, hf, hfa⟩ := List.exists_of_findSome?_eq_some ha
  exact h f hf a hfa

theorem Exec.Known.Owns.owner {known : Exec.Known} {c : Class} {m : Method} {s : Scene}
    (h : Exec.Known.Owns known c m) (hs : s.Sane) (hk : ∀ e ∈ known, s.found e.1 = some e.2) :
    m.owner = c.name := by
  cases h with
  | named h => exact (hs.closed.name (hk _ h)).symm
  | declared h hm =>
    have hc := hk _ h
    rw [(hs.closed.methods hc).2 m hm, hs.closed.name hc]

namespace Prog

variable {i : Nat} {Q : α → Scene → Prop} {s : Scene}

def IsSober : Prog α → Prop
  | .done _ => True
  | .step f next => (∀ m : Machine, m.Learns (f m).2) ∧ ∀ b, (next b).IsSober
  | .sign x next => x.isStart = false ∧ next.IsSober
  | .wait b next => b.IsMild ∧ ∀ w, (next w).IsSober
  | .starved => True

theorem IsMild.isSober {p : Prog α} (h : p.IsMild) : p.IsSober := by
  induction p with
  | done a => trivial
  | step f next ih => exact ⟨fun m => (h.1 m).learns, fun b => ih b (h.2 b)⟩
  | sign x next ih => exact ⟨Sign.isStart_of_isPlain h.1, ih h.2⟩
  | wait b next ih => exact ⟨h.1, fun w => ih w (h.2 w)⟩
  | starved => trivial

theorem isSober_pass {x : Sign} (h : x.isStart = false) : (pass x).IsSober := ⟨h, trivial⟩

theorem IsSober.meets {p : Prog α} (hp : p.IsSober) (hs : s.Sane)
    (h : ∀ a s', s.Abides i s' → Q a s') : p.Meets (.sealing i) Q s := by
  induction p generalizing s with
  | done a => exact h a s (.refl i hs)
  | step f next ih =>
    intro s1 hr
    obtain ⟨hs1, hr1⟩ := hr hs
    have h2 := (hr1.abides hs1).loads (hp.1 s1.machine).toLoads
    refine ⟨Scene.sealing_learns (hp.1 _), ih _ (hp.2 _) h2.sane fun a s' h' => ?_⟩
    exact h a s' (h2.trans h')
  | sign x next ih =>
    intro s1 hr
    obtain ⟨hs1, hr1⟩ := hr hs
    have h2 := (hr1.abides hs1).trans (Scene.abides_pass hs1 hp.1)
    exact ⟨Scene.sealing_pass, ih hp.2 h2.sane fun a s' h' => h a s' (h2.trans h')⟩
  | wait b next ih =>
    intro s1 w m hr ha
    obtain ⟨hs1, hr1⟩ := hr hs
    have hl := (Blocker.mild_attempt hp.1 ha).learns
    have h2 := (hr1.abides hs1).loads hl.toLoads
    exact ⟨Scene.sealing_learns hl, ih w (hp.2 w) h2.sane fun a s' h' => h a s' (h2.trans h')⟩
  | starved => trivial

end Prog

namespace Exec

structure Upright (known : Known) (i : Nat) (t : Thread) (s : Scene) : Prop where
  id : t.id = i
  owned : t.Owned
  sane : s.Sane
  engaged : s.Engaged i
  known : ∀ e ∈ known, s.found e.1 = some e.2

structure Honors (i : Nat) (s : Scene) (t' : Thread) (s' : Scene) : Prop where
  id : t'.id = i
  owned : t'.Owned
  abides : s.Abides i s'

def Sealing (known : Known) (x : Exec α) : Prop :=
  ∀ (i : Nat) (t : Thread) (s : Scene), Upright known i t s →
    x.Meets (.sealing i) t (fun _ t' s' => Honors i s t' s') s

variable {known : Known} {i : Nat} {t t' : Thread} {s s' s1 s2 : Scene}

theorem Upright.honors (h : Upright known i t s) : Honors i s t s := ⟨h.id, h.owned, .refl i h.sane⟩

theorem Upright.next (h : Upright known i t s) (h' : Honors i s t' s') : Upright known i t' s' where
  id := h'.id
  owned := h'.owned
  sane := h'.abides.sane
  engaged := h'.abides.engaged h.engaged
  known e he := h'.abides.grows _ _ (h.known e he)

theorem Honors.after (h' : Honors i s1 t' s2) (h : s.Abides i s1) : Honors i s t' s2 :=
  ⟨h'.id, h'.owned, h.trans h'.abides⟩

theorem Upright.weaken {known' : Known} (h : Upright known i t s) (hs : known' ⊆ known) :
    Upright known' i t s :=
  { h with known := fun e he => h.known e (hs he) }

namespace Sealing

theorem of_subset {known' : Known} {x : Exec α} (h : Sealing known' x) (hs : known' ⊆ known) :
    Sealing known x :=
  fun i t s hu => h i t s (hu.weaken hs)

theorem of_nil {x : Exec α} (h : Sealing [] x) : Sealing known x := h.of_subset (List.nil_subset _)

theorem pure (a : α) : Sealing known (Pure.pure a) := fun _ _ _ h => h.honors

theorem throw (trap : Trap) : Sealing known (MonadExcept.throw trap : Exec α) :=
  fun _ _ _ h => h.honors

theorem get : Sealing known (MonadState.get : Exec Thread) := fun _ _ _ h => h.honors

theorem modify {f : Thread → Thread} (hi : ∀ t, (f t).id = t.id)
    (ho : ∀ t : Thread, t.Owned → (f t).Owned) : Sealing known (modify f : Exec PUnit) :=
  fun _ t _ h => ⟨(hi t).trans h.id, ho t h.owned, .refl _ h.sane⟩

theorem bind {x : Exec α} {f : α → Exec β} (hx : Sealing known x)
    (hf : ∀ a, Sealing known (f a)) : Sealing known (x >>= f) := by
  intro i t s h
  refine meets_bind.2 ((hx i t s h).mono fun r t1 s1 h1 => ?_)
  cases r with
  | error trap => exact h1
  | ok a => exact (hf a i t1 s1 (h.next h1)).mono fun _ _ _ h2 => h2.after h1.abides

theorem attempt_bind {x : Exec α} {f : Except Trap α → Exec β} (hx : Sealing known x)
    (hf : ∀ r, Sealing known (f r)) : Sealing known (attempt x >>= f) := by
  intro i t s h
  refine meets_bind.2 (meets_attempt.2 ((hx i t s h).mono fun r t1 s1 h1 => ?_))
  exact (hf r i t1 s1 (h.next h1)).mono fun _ _ _ h2 => h2.after h1.abides

theorem lift {p : Prog α} (hp : p.IsSober) : Sealing known (Exec.lift p) :=
  fun _ _ _ h => meets_lift.2 (hp.meets h.sane fun _ _ ha => ⟨h.id, h.owned, ha⟩)

theorem ofTrap (r : Except Trap α) : Sealing known (Exec.ofTrap r) := by
  cases r with
  | ok a => exact pure a
  | error trap => exact throw trap

theorem inFrame {action : FrameM α}
    (ha : ∀ f : Frame, (action.run.run f).2.activation = f.activation) :
    Sealing known (Exec.inFrame action) := by
  intro i t s h
  cases hf : t.frames with
  | nil => exact (meets_inFrame_nil hf).2 h.honors
  | cons f rest =>
    refine (meets_inFrame_cons hf).2 ⟨h.id, ?_, .refl i h.sane⟩
    obtain ⟨ho, hrest⟩ := Thread.owned_of_frames h.owned hf
    exact List.forall_mem_cons.2 ⟨ho.of_activation (ha f), hrest⟩

end Sealing

theorem resolve_sealing {res : List Library → Resolving α} {P : α → ClassTable → Prop}
    (hf : ∀ libraries table, (res libraries).Keeps libraries P table) {Q : Post α}
    (hs : s.Sane) (ok : ∀ a s', s.Abides i s' → P a s'.machine.classes → Q (.ok a) t s')
    (error : ∀ trap s', s.Abides i s' → Q (.error trap) t s') :
    (resolve res).Meets (.sealing i) t Q s := by
  refine meets_resolve.2 fun s1 hr => ?_
  obtain ⟨hs1, hr1⟩ := hr hs
  have hl := Machine.learns_resolve hf s1.machine
  have ha := (hr1.abides hs1).loads hl.toLoads
  refine ⟨Scene.sealing_learns hl, ?_⟩
  cases hres : (s1.machine.resolve res).1 with
  | error err => exact error _ _ ha
  | ok a => exact ok a _ ha (Machine.of_resolve hf hres)

theorem Sealing.resolve_bind {res : List Library → Resolving α} {entry : α → ClassName × Class}
    {f : α → Exec β} (hr : Resolving.Finds res entry)
    (hf : ∀ a, Sealing (entry a :: known) (f a)) : Sealing known (resolve res >>= f) := by
  intro i t s h
  refine meets_bind.2 (resolve_sealing hr h.sane (fun a s1 ha hfound => ?_) fun trap s1 ha => ?_)
  · have h1 := h.next ⟨h.id, h.owned, ha⟩
    have h1' : Upright (entry a :: known) i t s1 :=
      { h1 with known := List.forall_mem_cons.2 ⟨hfound, h1.known⟩ }
    exact (hf a i t s1 h1').mono fun _ _ _ h2 => h2.after ha
  · exact ⟨h.id, h.owned, ha⟩

theorem locked_sealing {x : Exec α} (h : Upright known i t s)
    (hx : ∀ s1, Upright known i t s1 → s.Follows i s1 → s1.owner = some i →
      x.Meets (.sealing i) t (fun _ t' s2 => Honors i s1 t' s2) s1) :
    (locked x).Meets (.sealing i) t (fun _ t' s' => Honors i s t' s') s := by
  obtain rfl := h.id
  refine meets_locked.2 fun s0 w m hr ha => ?_
  obtain ⟨hs0, hr0⟩ := hr h.sane
  have hlock := Machine.lock?_of_attempt ha
  obtain ⟨d, hd, rfl, hl⟩ := Machine.lock?_eq hlock
  have depth : ∀ k, some ⟨t.id, d⟩ = some k → 1 ≤ MachineLock.depth k := by
    rintro _ ⟨⟩
    exact hd
  refine ⟨Scene.sealing_withLock hl fun _ => depth, ?_⟩
  change x.Meets (.sealing t.id) t
    (fun r t' s' => (Prog.update Machine.unlock).Meets (.sealing t.id)
      (fun _ => Honors t.id s t') s')
    (s0.withLock (some ⟨t.id, d⟩))
  have h1 : Upright known t.id t (s0.withLock (some ⟨t.id, d⟩)) :=
    { h with
      sane := hs0.withLock depth
      engaged := fun n hn => ⟨((hr0.abides hs0).engaged h.engaged n hn).1, rfl⟩
      known := fun e he => hr0.grows _ _ (h.known e he) }
  refine (hx _ h1 ⟨hr0.grows, hr0.states, hr0.own, hr0.passed⟩ rfl).mono fun r t' s2 h2 => ?_
  refine fun s3 hr3 => ?_
  obtain ⟨hs3, hr3⟩ := hr3 h2.abides.sane
  have ha3 := h2.abides.trans (hr3.abides hs3)
  have ho : s3.owner = some t.id := ha3.owner rfl
  have hunlock : s3.become s3.machine.unlock = s3.withLock s0.machine.lock :=
    congrArg s3.become (Machine.unlock_eq hlock hs0.depth (ha3.lock rfl))
  dsimp only
  rw [hunlock]
  refine ⟨Scene.sealing_withLock (.inr ho) fun _ => hs0.depth, h2.id, h2.owned, ?_⟩
  exact
    { sane := hs3.withLock hs0.depth
      grows := fun n c hc => ha3.grows n c (hr0.grows n c hc)
      lock := hr0.lock
      busy := fun hso n hn => ha3.busy rfl n ((hr0.states hso n).trans hn)
      inside := fun n hn => (Scene.inside_of_own hr0.own).1 (ha3.inside n hn)
      passed := hr0.passed.trans ha3.passed }

theorem Sealing.locked {x : Exec α} (hx : Sealing known x) : Sealing known (Exec.locked x) :=
  fun i t _ h => locked_sealing h fun s1 h1 _ _ => hx i t s1 h1

theorem setStatic_sealing {f : Field} {v : Value} (h : Upright known i t s) (hw : s.Writable i f) :
    (setStatic f v).Meets (.sealing i) t (fun _ t' s' => Honors i s t' s') s := by
  refine locked_sealing h fun s1 h1 hf ho => meets_lift.2 fun s2 hr => ?_
  obtain ⟨hs2, hr2⟩ := hr h1.sane
  have ha := hr2.abides hs2
  have hw2 := (hw.follows hf ho).abides ha
  have hs3 : (s2.become (s2.machine.setStatic f v)).Sane := ⟨hs2.closed, hs2.depth⟩
  refine ⟨hw2.sealing, h1.id, h1.owned, ?_⟩
  exact ha.trans ((Scene.undisturbed_setStatic i f v s2).abides hs3)

theorem Reach.Allows.activation {r : Reach} {action : FrameM α} (ha : r.Allows action) (f : Frame) :
    (action.run.run f).2.activation = f.activation := by
  cases r with
  | host => exact ha.elim
  | frame => exact (FrameM.StackOnly.gentle ha).activation f
  | call => exact FrameM.Gentle.activation ha f

end Exec

end BytecodeMachine
