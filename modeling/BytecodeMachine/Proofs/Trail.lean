import BytecodeMachine.Proofs.Contract
import BytecodeMachine.Proofs.Construction

namespace BytecodeMachine

variable {α β : Type}

namespace Sign

def isGuest : Sign → Bool
  | .noted (.step _ _ _) | .handled _ => true
  | _ => false

def isDump : Sign → Bool
  | .noted (.fatal _ _) => true
  | _ => false

def isTrapped : Sign → Bool
  | .trapped _ => true
  | _ => false

def isQuiet (x : Sign) : Bool := !x.isGuest && !x.isDump && !x.isTrapped

theorem isGuest_of_isQuiet {x : Sign} (h : x.isQuiet = true) : x.isGuest = false := by
  simp only [isQuiet, Bool.and_eq_true, Bool.not_eq_true'] at h
  exact h.1.1

theorem isDump_of_isQuiet {x : Sign} (h : x.isQuiet = true) : x.isDump = false := by
  simp only [isQuiet, Bool.and_eq_true, Bool.not_eq_true'] at h
  exact h.1.2

theorem isQuiet_of_isPlain {x : Sign} (h : x.isPlain = true) : x.isQuiet = true := by
  cases x with
  | noted e =>
    cases e
    all_goals first
      | rfl
      | cases h
  | _ => cases h

end Sign

def Machine.KeepsExit (m m' : Machine) : Prop :=
  ∀ code, m.exitStatus = some code → m'.exitStatus = some code

theorem Machine.KeepsExit.trans {m1 m2 m3 : Machine} (h : m1.KeepsExit m2) (h' : m2.KeepsExit m3) :
    m1.KeepsExit m3 :=
  fun code hc => h' code (h code hc)

theorem Machine.KeepsExit.of_eq {m m' : Machine} (h : m'.exitStatus = m.exitStatus) :
    m.KeepsExit m' :=
  fun _ hc => h.trans hc

theorem Machine.keepsExit_foldl_note {γ : Type} (f : γ → Event) (l : List γ) (m : Machine) :
    (l.foldl (fun m a => m.note (f a)) m).exitStatus = m.exitStatus := by
  induction l generalizing m with
  | nil => rfl
  | cons a l ih => exact ih _

theorem Machine.keepsExit_resolve (res : List Library → Resolving α) (m : Machine) :
    m.KeepsExit (m.resolve res).2 :=
  .of_eq (keepsExit_foldl_note _ _ _)

theorem Machine.keepsExit_unlock (m : Machine) : m.KeepsExit m.unlock := by
  unfold unlock
  split <;> exact .of_eq rfl

theorem Blocker.keepsExit_attempt {b : Blocker} {m m' : Machine} {w : Wake}
    (h : b.attempt m = some (w, m')) : m.KeepsExit m' := by
  by_cases hb : b.IsMild
  · exact (mild_attempt hb h).exitStatus
  · cases b with
    | machineLock t =>
      simp only [attempt, Machine.lock?] at h
      split at h
      · cases h
        exact .of_eq rfl
      · split at h <;> cases h
        exact .of_eq rfl
    | _ => exact absurd trivial hb

namespace Scene

def own (i : Nat) (s : Scene) : List Sign :=
  (s.passed.filter (·.1 = i)).map (·.2)

def Doomed (i : Nat) (trap : Trap) (s : Scene) : Prop :=
  trap.isCatchable = false ∧ .trapped trap ∈ s.own i

def dumps (i : Nat) (s : Scene) : Nat :=
  (s.own i).countP Sign.isDump

def Clean (i : Nat) (s : Scene) : Prop := ∀ trap, ¬ s.Doomed i trap

variable {i j : Nat} {s : Scene} {x : Sign}

theorem own_pass (i : Nat) (x : Sign) (s : Scene) : (s.pass i x).own i = x :: s.own i := by
  simp [own, pass]

theorem own_pass_of_ne (h : j ≠ i) : (s.pass i x).own j = s.own j := by
  simp [own, pass, Ne.symm h]

structure Calm (i : Nat) (s s' : Scene) : Prop where
  doomed : ∀ trap, s'.Doomed i trap → s.Doomed i trap
  dumps : s'.dumps i = s.dumps i
  exitStatus : s.machine.KeepsExit s'.machine

theorem Calm.refl (i : Nat) (s : Scene) : s.Calm i s := ⟨fun _ h => h, rfl, fun _ h => h⟩

theorem Calm.trans {s1 s2 s3 : Scene} (h : s1.Calm i s2) (h' : s2.Calm i s3) : s1.Calm i s3 :=
  ⟨fun trap hd => h.doomed trap (h'.doomed trap hd), h'.dumps.trans h.dumps,
    h.exitStatus.trans h'.exitStatus⟩

theorem Calm.of_own {s' : Scene} (h : s'.own i = s.own i)
    (he : s.machine.KeepsExit s'.machine) : s.Calm i s' where
  doomed trap hd := by rwa [Doomed, h] at hd
  dumps := by rw [Scene.dumps, h, Scene.dumps]
  exitStatus := he

theorem calm_become {m : Machine} (h : s.machine.KeepsExit m) : s.Calm i (s.become m) :=
  .of_own rfl h

theorem Clean.of_calm {s' : Scene} (hs : s.Clean i) (h : s.Calm i s') : s'.Clean i :=
  fun trap hd => hs trap (h.doomed trap hd)

theorem keepsExit_pass (i : Nat) (x : Sign) (s : Scene) :
    s.machine.KeepsExit (s.pass i x).machine := by
  cases x <;> exact .of_eq rfl

theorem calm_pass (hx : x.isDump = false)
    (ht : ∀ trap, x = .trapped trap → trap.isCatchable = true) : s.Calm i (s.pass i x) where
  doomed trap hd := by
    rw [Doomed, own_pass] at hd
    refine ⟨hd.1, (List.mem_cons.1 hd.2).resolve_left fun h => ?_⟩
    have := ht trap h.symm
    rw [hd.1] at this
    cases this
  dumps := by
    rw [Scene.dumps, own_pass, List.countP_cons_of_neg (by rw [hx]; exact Bool.false_ne_true),
      Scene.dumps]
  exitStatus := keepsExit_pass i x s

theorem calm_pass_quiet (hx : x.isQuiet = true) : s.Calm i (s.pass i x) :=
  calm_pass (Sign.isDump_of_isQuiet hx) fun trap h => by subst h; cases hx

end Scene

def Contract.orderly (i : Nat) : Contract where
  thread := i
  rely s s' := s'.own i = s.own i ∧ s.machine.KeepsExit s'.machine
  guarantee s s' :=
    (∀ j, j ≠ i → s'.own j = s.own j) ∧ s.machine.KeepsExit s'.machine ∧
      (s'.own i = s.own i ∨
        ∃ x, s'.own i = x :: s.own i ∧ ((∃ trap, s.Doomed i trap) → x.isGuest = false))

theorem Contract.orderly_compatible {i j : Nat} (h : i ≠ j) {s s' : Scene}
    (hg : (orderly i).guarantee s s') : (orderly j).rely s s' :=
  ⟨hg.1 j h.symm, hg.2.1⟩

namespace Prog

variable {i : Nat} {Q : α → Scene → Prop} {s : Scene}

theorem meets_sign {x : Sign} {next : Prog α}
    (hx : ∀ s', s.Calm i s' → (∃ trap, s'.Doomed i trap) → x.isGuest = false)
    (h : ∀ s', s.Calm i s' → next.Meets (.orderly i) Q (s'.pass i x)) :
    (Prog.sign x next).Meets (.orderly i) Q s := by
  intro s' hr
  have hs := Scene.Calm.of_own hr.1 hr.2
  refine ⟨⟨fun j hj => Scene.own_pass_of_ne hj, Scene.keepsExit_pass i x s', .inr ?_⟩, h s' hs⟩
  exact ⟨x, Scene.own_pass i x s', hx s' hs⟩

def IsQuiet : Prog α → Prop
  | .done _ => True
  | .step f next => (∀ m : Machine, m.KeepsExit (f m).2) ∧ ∀ b, (next b).IsQuiet
  | .sign x next => x.isQuiet = true ∧ next.IsQuiet
  | .wait _ next => ∀ w, (next w).IsQuiet
  | .starved => True

theorem IsMild.isQuiet {p : Prog α} (h : p.IsMild) : p.IsQuiet := by
  induction p with
  | done a => trivial
  | step f next ih => exact ⟨fun m => (h.1 m).exitStatus, fun b => ih b (h.2 b)⟩
  | sign x next ih => exact ⟨Sign.isQuiet_of_isPlain h.1, ih h.2⟩
  | wait b next ih => exact fun w => ih w (h.2 w)
  | starved => trivial

theorem isQuiet_act {f : Machine → α × Machine} (h : ∀ m : Machine, m.KeepsExit (f m).2) :
    (act f).IsQuiet :=
  ⟨h, fun _ => trivial⟩

theorem isQuiet_read (f : Machine → α) : (read f).IsQuiet := isQuiet_act fun _ => .of_eq rfl

theorem isQuiet_update {f : Machine → Machine} (h : ∀ m : Machine, m.KeepsExit (f m)) :
    (update f).IsQuiet :=
  isQuiet_act h

theorem isQuiet_await (b : Blocker) : (await b).IsQuiet := fun _ => trivial

theorem isQuiet_turn : turn.IsQuiet := fun _ => trivial

theorem isQuiet_pass {x : Sign} (h : x.isQuiet = true) : (pass x).IsQuiet := ⟨h, trivial⟩

theorem IsQuiet.meets {p : Prog α} (hp : p.IsQuiet) (h : ∀ a s', s.Calm i s' → Q a s') :
    p.Meets (.orderly i) Q s := by
  induction p generalizing s with
  | done a => exact h a s (.refl i s)
  | step f next ih =>
    intro s' hr
    have hs := Scene.Calm.of_own hr.1 hr.2
    refine ⟨⟨fun _ _ => rfl, hp.1 _, .inl rfl⟩, ih _ (hp.2 _) fun a s'' hs'' => h a s'' ?_⟩
    exact (hs.trans (Scene.calm_become (hp.1 _))).trans hs''
  | sign x next ih =>
    refine meets_sign (fun _ _ _ => Sign.isGuest_of_isQuiet hp.1) fun s' hs => ?_
    refine ih hp.2 fun a s'' hs'' => h a s'' ?_
    exact (hs.trans (Scene.calm_pass_quiet hp.1)).trans hs''
  | wait b next ih =>
    intro s' w m hr ha
    have hs := Scene.Calm.of_own hr.1 hr.2
    have hk := Blocker.keepsExit_attempt ha
    refine ⟨⟨fun _ _ => rfl, hk, .inl rfl⟩, ih _ (hp w) fun a s'' hs'' => h a s'' ?_⟩
    exact (hs.trans (Scene.calm_become hk)).trans hs''
  | starved => trivial

end Prog

namespace Exec

variable {i : Nat} {t : Thread} {s : Scene}

theorem lift_quiet {p : Prog α} {Q : Post α} (hp : p.IsQuiet)
    (h : ∀ a s', s.Calm i s' → Q (.ok a) t s') : (lift p).Meets (.orderly i) t Q s :=
  meets_lift.2 (hp.meets h)

theorem lift_bind_quiet {p : Prog α} {f : α → Exec β} {Q : Post β} (hp : p.IsQuiet)
    (h : ∀ a s', s.Calm i s' → (f a).Meets (.orderly i) t Q s') :
    (lift p >>= f).Meets (.orderly i) t Q s :=
  meets_bind.2 (lift_quiet hp h)

theorem read_bind {f : Machine → α} {g : α → Exec β} {Q : Post β}
    (h : ∀ s', s.Calm i s' → (g (f s'.machine)).Meets (.orderly i) t Q s') :
    (read f >>= g).Meets (.orderly i) t Q s := by
  refine meets_bind.2 (meets_lift.2 fun s' hr => ?_)
  exact ⟨⟨fun _ _ => rfl, fun _ hc => hc, .inl rfl⟩, h s' (.of_own hr.1 hr.2)⟩

theorem pass_meets {x : Sign} {Q : Post Unit}
    (hx : ∀ s', s.Calm i s' → (∃ trap, s'.Doomed i trap) → x.isGuest = false)
    (h : ∀ s', s.Calm i s' → Q (.ok ()) t (s'.pass i x)) : (pass x).Meets (.orderly i) t Q s :=
  meets_lift.2 (Prog.meets_sign hx h)

end Exec

end BytecodeMachine
