import BytecodeMachine.Proofs.Setup.Moves

namespace BytecodeMachine

variable {α β : Type}

open InitState

namespace Scene

variable {i d : Nat} {n : ClassName} {s s1 s2 s3 : Scene}

structure Passage (i : Nat) (s s' : Scene) : Prop where
  coherent : s'.Coherent
  visit : s.Visit i none s'

theorem Passage.refl (i : Nat) (hs : s.Coherent) : s.Passage i s := ⟨hs, .refl i none s⟩

theorem Passage.trans (h : s1.Passage i s2) (h' : s2.Passage i s3) : s1.Passage i s3 :=
  ⟨h'.coherent, h.visit.trans h'.visit⟩

theorem Rest.passage (h : s1.Rest i s2) (hs : s2.Coherent) : s1.Passage i s2 := ⟨hs, h.visit⟩

structure Released (s s' : Scene) : Prop where
  state : ∀ n, s'.state n = s.state n
  statics : ∀ k, (s.machine.statics.get? k).isSome → (s'.machine.statics.get? k).isSome

structure Held (i : Nat) (s s' : Scene) : Prop where
  coherent : s'.Coherent
  owner : s'.owner = some i
  libraries : s'.machine.libraries = s.machine.libraries
  grows : ∀ n c, s.found n = some c → s'.found n = some c
  spared : s'.Spared → s.Spared
  again : s.owner = some i → ∀ n, s'.state n = s.state n
  fresh : s.owner ≠ some i → ∀ n, s'.state n ≠ initializing

theorem not_initializing_of_lock (hs : s.Coherent) (h : s.machine.lock = none) (n : ClassName) :
    s.state n ≠ initializing := by
  intro hn
  obtain ⟨i, ho, -⟩ := hs.busy n hn
  rw [owner, h] at ho
  cases ho

theorem owner_of_lock {l : MachineLock} (h : s.machine.lock = some l) : s.owner = some l.owner := by
  rw [owner, h]
  rfl

theorem Rest.held (h : s.Rest i s1) (hs : s1.Coherent) (hd : 1 ≤ d)
    (hl : s1.machine.lock = none ∨ s1.owner = some i) : s.Held i (s1.withLock (some ⟨i, d⟩)) where
  coherent := hs.take hd hl
  owner := rfl
  libraries := h.visit.libraries
  grows := h.visit.grows
  spared := h.visit.spared
  again ho n := h.still ho n
  fresh ho n := by
    rcases hl with hl | hl
    · exact not_initializing_of_lock hs hl n
    · exact absurd hl (h.visit.free ho)

theorem visit_withLock (h : (s.withLock (some ⟨i, d⟩)).Visit i none s2) :
    s.Visit i none (s2.withLock s.machine.lock) where
  libraries := h.libraries
  grows := h.grows
  statics := h.statics
  started := h.started
  done := h.done
  lock _ := rfl
  free ho := ho
  busy _ := h.busy rfl
  once _ := h.once rfl
  passed := h.passed

theorem coherent_release (hs : s.Coherent) (hl : s.machine.lock = none ∨ s.owner = some i)
    (hp : (s.withLock (some ⟨i, d⟩)).Passage i s2) : (s2.withLock s.machine.lock).Coherent := by
  cases hlock : s.machine.lock with
  | none =>
    refine hp.coherent.give fun n hn => not_initializing_of_lock hs hlock n ?_
    exact (hp.visit.busy rfl n).1 hn
  | some l =>
    have ho : s2.owner = some i := hp.visit.owner rfl
    have hi : l.owner = i := by
      rcases hl with hl | hl
      · rw [hlock] at hl
        cases hl
      · exact Option.some.inj ((owner_of_lock hlock).symm.trans hl)
    subst hi
    exact hp.coherent.take (hs.depth l hlock) (.inr ho)

end Scene

namespace Machine

variable {i : Nat} {m m1 m2 : Machine}

theorem lock?_of_attempt {w : Wake} (h : (Blocker.machineLock i).attempt m = some (w, m1)) :
    m.lock? i = some m1 := by
  obtain ⟨m2, hm, he⟩ := Option.map_eq_some_iff.1 h
  cases he
  exact hm

theorem lock?_eq (h : m.lock? i = some m1) :
    ∃ d, 1 ≤ d ∧ m1 = { m with lock := some ⟨i, d⟩ } ∧
      (m.lock = none ∨ m.lock.map (·.owner) = some i) := by
  unfold lock? at h
  split at h
  · rename_i hl
    cases h
    exact ⟨1, Nat.le_refl 1, rfl, .inl hl⟩
  · rename_i l hl
    split at h
    · rename_i ho
      subst ho
      cases h
      exact ⟨l.depth + 1, Nat.le_add_left 1 _, rfl, .inr (by rw [hl]; rfl)⟩
    · cases h

theorem unlock_eq (h : m.lock? i = some m1) (hd : ∀ l, m.lock = some l → 1 ≤ l.depth)
    (h2 : m2.lock = m1.lock) : m2.unlock = { m2 with lock := m.lock } := by
  unfold lock? at h
  split at h
  · rename_i hl
    cases h
    simp only [unlock, h2, hl, Nat.le_refl, if_true]
  · rename_i l hl
    split at h
    · cases h
      have := hd l hl
      have hn : ¬l.depth + 1 ≤ 1 := by omega
      simp only [unlock, h2, hl, hn, if_false, Nat.add_sub_cancel]
    · cases h

end Machine

namespace Prog

variable {i : Nat} {Q : α → Scene → Prop} {s : Scene}

theorem act_within {f : Machine → α × Machine} (hs : s.Coherent)
    (h : ∀ s', s'.Coherent → s.Rest i s' →
      (Contract.setup i).guarantee s' (s'.become (f s'.machine).2) ∧
        Q (f s'.machine).1 (s'.become (f s'.machine).2)) :
    (act f).Meets (.setup i) Q s :=
  fun s' hr => h s' (hr hs).1 (hr hs).2

def IsNeutral : Prog α → Prop
  | .done _ => True
  | .step f next => (∀ m : Machine, m.Loads (f m).2) ∧ ∀ b, (next b).IsNeutral
  | .sign x next => x.isNeutral = true ∧ next.IsNeutral
  | .wait b next => b.IsMild ∧ ∀ w, (next w).IsNeutral
  | .starved => True

theorem IsMild.isNeutral {p : Prog α} (h : p.IsMild) : p.IsNeutral := by
  induction p with
  | done a => trivial
  | step f next ih => exact ⟨fun m => (h.1 m).loads, fun b => ih b (h.2 b)⟩
  | sign x next ih => exact ⟨Sign.isNeutral_of_isPlain h.1, ih h.2⟩
  | wait b next ih => exact ⟨h.1, fun w => ih w (h.2 w)⟩
  | starved => trivial

theorem isNeutral_pass {x : Sign} (h : x.isNeutral = true) : (pass x).IsNeutral := ⟨h, trivial⟩

theorem IsNeutral.meets {p : Prog α} (hp : p.IsNeutral) (hs : s.Coherent)
    (h : ∀ a s', s'.Coherent → s.Rest i s' → Q a s') : p.Meets (.setup i) Q s := by
  induction p generalizing s with
  | done a => exact h a s hs (.refl i s)
  | step f next ih =>
    intro s1 hr
    obtain ⟨hs1, hr1⟩ := hr hs
    have hn : s1.Neutral (s1.become (f s1.machine).2) := ⟨hp.1 _, rfl⟩
    refine ⟨Scene.guarantee_neutral hn, ih _ (hp.2 _) (hn.coherent hs1) fun a s2 hs2 hr2 => ?_⟩
    exact h a s2 hs2 ((hr1.trans (hn.rest i)).trans hr2)
  | sign x next ih =>
    intro s1 hr
    obtain ⟨hs1, hr1⟩ := hr hs
    have hx := Scene.allows_of_isNeutral (i := i) (s := s1) hp.1
    have hn : s1.Rest i (s1.pass i x) := by
      refine Scene.rest_pass fun _ n hx => ?_
      rw [hx] at hp
      cases hp.1
    refine ⟨Scene.guarantee_pass hx, ih hp.2 (hs1.pass hx) fun a s2 hs2 hr2 => ?_⟩
    exact h a s2 hs2 ((hr1.trans hn).trans hr2)
  | wait b next ih =>
    intro s1 w m hr ha
    obtain ⟨hs1, hr1⟩ := hr hs
    have hn : s1.Neutral (s1.become m) := ⟨(Blocker.mild_attempt hp.1 ha).loads, rfl⟩
    refine ⟨Scene.guarantee_neutral hn, ih _ (hp.2 w) (hn.coherent hs1) fun a s2 hs2 hr2 => ?_⟩
    exact h a s2 hs2 ((hr1.trans (hn.rest i)).trans hr2)
  | starved => trivial

end Prog

namespace Exec

variable {i : Nat} {t : Thread} {s : Scene}

theorem lift_neutral {p : Prog α} {Q : Post α} (hp : p.IsNeutral) (hs : s.Coherent)
    (h : ∀ a s', s'.Coherent → s.Rest i s' → Q (.ok a) t s') : (lift p).Meets (.setup i) t Q s :=
  meets_lift.2 (hp.meets hs h)

theorem lift_bind_neutral {p : Prog α} {f : α → Exec β} {Q : Post β} (hp : p.IsNeutral)
    (hs : s.Coherent) (h : ∀ a s', s'.Coherent → s.Rest i s' → (f a).Meets (.setup i) t Q s') :
    (lift p >>= f).Meets (.setup i) t Q s :=
  meets_bind.2 (lift_neutral hp hs h)

theorem read_within {f : Machine → α} {g : α → Exec β} {Q : Post β} (hs : s.Coherent)
    (h : ∀ s', s'.Coherent → s.Rest i s' → (g (f s'.machine)).Meets (.setup i) t Q s') :
    (read f >>= g).Meets (.setup i) t Q s := by
  refine meets_bind.2 (meets_lift.2 (Prog.act_within hs fun s' hs' hr => ⟨?_, h s' hs' hr⟩))
  exact Scene.guarantee_neutral ⟨(Machine.Spares.refl _).loads, rfl⟩

theorem update_within {f : Machine → Machine} {Q : Post Unit} (hs : s.Coherent)
    (h : ∀ s', s'.Coherent → s.Rest i s' →
      (Contract.setup i).guarantee s' (s'.become (f s'.machine)) ∧
        Q (.ok ()) t (s'.become (f s'.machine))) :
    (update f).Meets (.setup i) t Q s :=
  meets_lift.2 (Prog.act_within hs h)

theorem pass_within {x : Sign} {Q : Post Unit} (hs : s.Coherent)
    (h : ∀ s', s'.Coherent → s.Rest i s' → s'.Allows i x ∧ Q (.ok ()) t (s'.pass i x)) :
    (pass x).Meets (.setup i) t Q s := by
  refine meets_lift.2 fun s' hr => ?_
  obtain ⟨hs', hr'⟩ := hr hs
  exact ⟨Scene.guarantee_pass (h s' hs' hr').1, (h s' hs' hr').2⟩

theorem resolve_within {res : List Library → Resolving α} {P : α → ClassTable → Prop}
    (hf : ∀ libraries table, (res libraries).Keeps libraries P table) {Q : Post α} (hs : s.Coherent)
    (ok : ∀ a s', s'.Coherent → s.Rest i s' → P a s'.machine.classes → Q (.ok a) t s')
    (error : ∀ trap s', s'.Coherent → s.Rest i s' → Q (.error trap) t s') :
    (resolve res).Meets (.setup i) t Q s := by
  refine meets_resolve.2 (Prog.act_within hs fun s' hs' hr => ?_)
  have hn : s'.Neutral (s'.become (s'.machine.resolve res).2) := ⟨Machine.loads_resolve hf _, rfl⟩
  have hc := hn.coherent hs'
  have hr' := hr.trans (hn.rest i)
  refine ⟨Scene.guarantee_neutral hn, ?_⟩
  cases hres : (s'.machine.resolve res).1 with
  | error err => exact error _ _ hc hr'
  | ok a => exact ok a _ hc hr' (Machine.of_resolve hf hres)

theorem locked_within {x : Exec α} {Q : Post α} (hs : s.Coherent)
    (hx : ∀ s1, s.Held t.id s1 → x.Meets (.setup t.id) t (fun r t' s2 => s1.Passage t.id s2 ∧
      ∀ s3, s.Passage t.id s3 → s2.Released s3 → Q r t' s3) s1) :
    (locked x).Meets (.setup t.id) t Q s := by
  refine meets_locked.2 fun s0 w m hr ha => ?_
  obtain ⟨hs0, hr0⟩ := hr hs
  have hlock := Machine.lock?_of_attempt ha
  obtain ⟨d, hd, rfl, hl⟩ := Machine.lock?_eq hlock
  refine ⟨Scene.guarantee_withLock hl (.inl rfl) fun _ => hs0.take hd hl, ?_⟩
  change Meets (.setup t.id) x t
    (fun r t' s' => (Prog.update Machine.unlock).Meets (.setup t.id) (fun _ => Q r t') s')
    (s0.withLock (some ⟨t.id, d⟩))
  refine (hx _ (hr0.held hs0 hd hl)).mono fun r t' s2 h => ?_
  obtain ⟨hp, hq⟩ := h
  refine Prog.act_within hp.coherent fun s2' hs2' hr2 => ?_
  have hp' := hp.trans (hr2.passage hs2')
  have ho : s2'.owner = some t.id := hp'.visit.owner rfl
  have hunlock : s2'.become s2'.machine.unlock = s2'.withLock s0.machine.lock :=
    congrArg s2'.become (Machine.unlock_eq hlock hs0.depth (hp'.visit.lock rfl))
  have hc := Scene.coherent_release hs0 hl hp'
  dsimp only
  rw [hunlock]
  refine ⟨Scene.guarantee_withLock (.inr ho) ?_ fun _ => hc, hq _ ?_ ⟨?_, hr2.visit.statics⟩⟩
  · rcases hl with hl | hl
    · exact .inr hl
    · exact .inl hl
  · exact (hr0.passage hs0).trans ⟨hc, Scene.visit_withLock hp'.visit⟩
  · exact hr2.still (hp.visit.owner rfl)

end Exec

end BytecodeMachine
