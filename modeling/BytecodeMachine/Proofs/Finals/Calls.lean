import BytecodeMachine.Proofs.Finals.Sealing

namespace BytecodeMachine

variable {α β : Type}

open InitState

structure Engine.IsSealing (e : Engine) : Prop where
  setUp : ∀ c, Exec.Sealing [(c.name, c)] (e.setUp c)
  native : ∀ m arguments, Exec.Sealing [] (e.native m arguments)
  run : ∀ limit, Exec.Sealing [] (e.run limit)

namespace Exec

variable {e : Engine} {known : Known} {i : Nat} {t : Thread} {s : Scene}

section Calls

theorem sealing_push (v : Value) : Sealing known (push v) :=
  .inFrame (FrameM.stackOnly_push v).gentle.activation

theorem Frame.owned_of_enter {c : Class} {m : Method} {arguments : List Value} {f : Frame}
    (h : Frame.enter c m arguments = .ok f) (hm : m.owner = c.name) : f.Owned := by
  unfold Frame.enter at h
  repeat' split at h
  all_goals cases h
  rintro a ⟨⟩
  exact hm

theorem sealing_enterFrame {c : Class} {m : Method} (ho : Known.Owns known c m)
    (arguments : List Value) : Sealing known (enterFrame c m arguments) := by
  have next : Sealing known (do
      let f ← ofExcept (Frame.enter c m arguments)
      modify (·.push f) : Exec Unit) := by
    intro i t s h
    cases hf : Frame.enter c m arguments with
    | error fault => exact h.honors
    | ok f =>
      have hf' := Frame.owned_of_enter hf (ho.owner h.sane h.known)
      exact ⟨h.id, List.forall_mem_cons.2 ⟨hf', h.owned⟩, .refl i h.sane⟩
  refine .bind (.lift (Prog.isMild_read _).isSober) fun b => ?_
  dsimp only
  split
  · exact .bind .get fun _ => .bind (.lift (Prog.isSober_pass rfl)) fun _ => next
  · exact next

theorem sealing_enterMethod (he : e.IsSealing) {c : Class} {m : Method}
    (ho : Known.Owns known c m) (arguments : List Value) :
    Sealing known (enterMethod e c m arguments) := by
  unfold enterMethod
  split
  · refine .bind (he.native m arguments).of_nil fun v => ?_
    cases v with
    | none => exact .pure ()
    | some v => exact sealing_push v
  · split
    · exact .throw _
    · exact sealing_enterFrame ho arguments

theorem sealing_takeResult : Sealing known takeResult := by
  intro i t s h
  unfold takeResult
  rw [meets_bind, meets_get, after_ok]
  cases hf : t.frames with
  | nil => exact h.honors
  | cons blank rest =>
    have ho : Honors i s { t with frames := rest } s :=
      ⟨h.id, (Thread.owned_of_frames h.owned hf).2, .refl i h.sane⟩
    dsimp only
    rw [meets_bind, meets_modify, after_ok]
    split
    · exact ho
    · exact ho

theorem sealing_invokeMethod (he : e.IsSealing) {c : Class} {m : Method}
    (ho : Known.Owns known c m) (arguments : List Value) :
    Sealing known (invokeMethod e c m arguments) := by
  refine .bind (.lift (Prog.isSober_pass rfl)) fun _ => .bind .get fun t => ?_
  have push (t : Thread) (h : t.Owned) : (t.push .blank).Owned :=
    List.forall_mem_cons.2 ⟨nofun, h⟩
  have body := Sealing.bind (sealing_enterMethod he ho arguments) fun _ =>
    (he.run (t.depth + 1)).of_nil
  refine .bind (.modify (fun _ => rfl) push) fun _ => .attempt_bind body fun r => ?_
  cases r with
  | ok _ => exact sealing_takeResult
  | error trap =>
    refine .bind (.modify (fun _ => rfl) fun t h => ?_) fun _ => .throw trap
    exact h.of_subset (List.drop_subset _ _)

theorem sealing_deliver (v : Option Value) (rest : Frames) :
    Sealing known (match v, rest with
      | some v, _ :: _ => push v
      | _, _ => pure () : Exec Unit) := by
  split
  · exact sealing_push _
  · exact .pure ()

theorem sealing_returnFrom (hasValue : Bool) : Sealing known (returnFrom hasValue) := by
  intro i t s h
  unfold returnFrom
  rw [meets_bind, meets_get, after_ok]
  cases hf : t.frames with
  | nil => exact h.honors
  | cons f rest =>
    have hu : Upright known i { t with frames := rest } s :=
      { h with owned := (Thread.owned_of_frames h.owned hf).2 }
    dsimp only
    rw [meets_bind, meets_modify, after_ok]
    generalize (if hasValue = true then f.stack.head? else none) = v
    split
    · exact hu.honors
    · split
      · split
        · exact hu.honors
        · exact sealing_deliver v rest i _ s hu
      · exact sealing_deliver v rest i _ s hu

theorem Built.sealing (he : e.IsSealing) {z : Realm} {r : Reach} {x : Exec α}
    (h : Built e z r known x) : Sealing known x := by
  induction h with
  | pure a => exact .pure a
  | throw trap => exact .throw trap
  | bind _ _ ihx ihf => exact .bind ihx ihf
  | get => exact .get
  | modify h => exact .modify (fun t => (h t).id) fun t ho => ho.of_subset ((h t).frames ▸ .refl _)
  | lift h => exact .lift h.isSober
  | enroll n hc =>
    refine .bind (.lift (Prog.isMild_act fun m => Machine.mild_alloc _ _ m).isSober) fun o => ?_
    exact .lift ⟨fun m => (Machine.spares_enroll n o m).learns, fun _ => trivial⟩
  | keep c text _ ih =>
    refine .bind (.lift (Prog.isMild_act fun m => Machine.mild_alloc _ _ m).isSober) fun o => ?_
    refine .bind (ih o) fun _ => ?_
    exact .lift ⟨fun m => (Machine.spares_keep text o m).learns, fun _ => trivial⟩
  | report index code =>
    refine .bind .get fun t => ?_
    exact .lift ⟨fun m => (Machine.spares_setError t.id index code m).learns, fun _ => trivial⟩
  | looking h => exact .lift ⟨Machine.learns_resolve h, fun _ => trivial⟩
  | resolving h _ ihf => exact .resolve_bind h ihf
  | locked _ ih => exact .locked ih
  | @setUp _ known n c hc hz =>
    intro i t s h
    obtain rfl : c.name = n := h.sane.closed.name (h.known _ hc)
    exact he.setUp c i t s (h.weaken (List.cons_subset.2 ⟨hc, List.nil_subset _⟩))
  | invoke arguments ho hz => exact sealing_invokeMethod he ho arguments
  | recover _ ok caught passed ihx ihok ihcaught =>
    refine .attempt_bind ihx fun r => ?_
    cases r with
    | ok a => exact ihok a
    | error trap =>
      cases ht : trap.isCatchable with
      | true => exact ihcaught trap ht
      | false =>
        obtain ⟨g, hg, hf⟩ := passed trap ht
        rw [hf]
        refine .bind (.modify (fun t => (hg t).id) fun t ho => ?_) fun _ => .throw trap
        exact ho.of_subset ((hg t).frames ▸ .refl _)
  | frame action ha => exact .inFrame ha.activation
  | enter arguments ho hz => exact sealing_enterMethod he ho arguments
  | leave hasValue => exact sealing_returnFrom hasValue

end Calls

section Fields

def Granted (i : Nat) (t : Thread) (s : Scene) : Prop :=
  ∀ a, t.activation? = some a → a.method.name = .staticInitializer →
    s.Recalled a.klass.name ∨ s.state a.klass.name = initializing ∧ s.owner = some i

theorem Granted.abides {s' : Scene} (h : Granted i t s) (ha : s.Abides i s') : Granted i t s' :=
  fun a hac hm => (h a hac hm).imp (·.mono ha.passed) fun hn => ⟨ha.busy hn.2 _ hn.1, ha.owner hn.2⟩

theorem putStatic_sealing (he : e.IsSealing) (h : Upright [] i t s) (hg : Granted i t s)
    (ref : FieldRef) :
    (putStatic e ref).Meets (.sealing i) t (fun _ t' s' => Honors i s t' s') s := by
  unfold putStatic resolveField
  rw [bind_assoc, meets_bind, meets_get, after_ok, meets_bind]
  refine resolve_sealing (Resolving.keeps_resolveField ref _) h.sane (fun a s1 ha hres => ?_)
    fun trap s1 ha => ⟨h.id, h.owned, ha⟩
  obtain ⟨c, f⟩ := a
  obtain ⟨hc, -, k, hk, hl⟩ := hres
  have h1 : Upright [(c.name, c)] i t s1 := by
    have hn := ha.sane.closed.name hc
    have hu := h.next ⟨h.id, h.owned, ha⟩
    exact { hu with known := List.forall_mem_singleton.2 (hn ▸ hc) }
  have failed {t' : Thread} (h' : Honors i s1 t' s1) : Honors i s t' s1 := h'.after ha
  rw [after_ok]
  dsimp only
  split
  · exact failed h1.honors
  · refine meets_checkFinalWrite_bind (fun hw => ?_) fun _ => failed h1.honors
    have hwrite : s1.Writable i f := by
      obtain ⟨d, hd, hf⟩ := ha.sane.closed.owner hk hl
      refine ⟨⟨d, hd, hf⟩, fun hfin => ?_⟩
      obtain ⟨a, hact, hm, hown⟩ := hw hfin
      exact hown ▸ hg.abides ha a hact hm
    refine meets_bind.2 ((he.setUp c i t s1 h1).mono fun r t2 s2 h2 => ?_)
    cases r with
    | error trap => exact h2.after ha
    | ok _ =>
      have h2u := h1.next h2
      have hpop : Sealing [(c.name, c)] (inFrame .pop) :=
        .inFrame FrameM.stackOnly_pop.gentle.activation
      rw [after_ok]
      refine meets_bind.2 ((hpop i t2 s2 h2u).mono fun r t3 s3 h3 => ?_)
      have ha3 := ha.trans (h2.abides.trans h3.abides)
      cases r with
      | error trap => exact h3.after (ha.trans h2.abides)
      | ok v =>
        have h3u := h2u.next h3
        have hw3 := (hwrite.abides h2.abides).abides h3.abides
        rw [after_ok]
        unfold checkStored
        split
        · exact (setStatic_sealing h3u hw3).mono fun _ _ _ h4 => h4.after ha3
        · exact ⟨h3.id, h3.owned, ha3⟩

end Fields

section SetUp

theorem seed_sealing (he : e.IsSealing) {c : Class} {fields : List Field}
    (h : Upright [(c.name, c)] i t s) (hf : fields ⊆ c.fields) (hn : s.state c.name = initializing)
    (ho : s.owner = some i) :
    (seed e fields).Meets (.sealing i) t (fun _ t' s' => Honors i s t' s') s := by
  induction fields generalizing t s with
  | nil => exact h.honors
  | cons f rest ih =>
    obtain ⟨hf, hrest⟩ := List.cons_subset.1 hf
    have next {t1 : Thread} {s1 : Scene} (h1 : Honors i s t1 s1) :
        (seed e rest).Meets (.sealing i) t1 (fun _ t' s' => Honors i s t' s') s1 :=
      (ih (h.next h1) hrest (h1.abides.busy ho _ hn) (h1.abides.owner ho)).mono
        fun _ _ _ h2 => h2.after h1.abides
    unfold seed
    dsimp only
    split
    · have hb : Built e .core .host [(c.name, c)] (firstValue e f) := .firstValue f
      refine meets_bind.2 ((hb.sealing he i t s h).mono fun r t1 s1 h1 => ?_)
      cases r with
      | error trap => exact h1
      | ok v =>
        have h1u := h.next h1
        have hc := h1u.known _ List.mem_cons_self
        have hown := (h1u.sane.closed.placed hc).owner f hf
        have hw : s1.Writable i f :=
          ⟨⟨c, hown ▸ hc, hf⟩, fun _ => .inr (hown ▸ ⟨h1.abides.busy ho _ hn, h1.abides.owner ho⟩)⟩
        rw [after_ok, meets_bind]
        refine (setStatic_sealing h1u hw).mono fun r t2 s2 h2 => ?_
        cases r with
        | error trap => exact h2.after h1.abides
        | ok _ => exact next (h2.after h1.abides)
    · exact next h.honors

theorem setUpAll_sealing (he : e.IsSealing) {cs : List Class} (h : Upright [] i t s)
    (hcs : ∀ c ∈ cs, s.found c.name = some c) :
    (setUpAll e cs).Meets (.sealing i) t (fun _ t' s' => Honors i s t' s') s := by
  induction cs generalizing t s with
  | nil => exact h.honors
  | cons c rest ih =>
    obtain ⟨hc, hrest⟩ := List.forall_mem_cons.1 hcs
    have hu : Upright [(c.name, c)] i t s := { h with known := List.forall_mem_singleton.2 hc }
    refine meets_bind.2 ((he.setUp c i t s hu).mono fun r t1 s1 h1 => ?_)
    cases r with
    | error trap => exact h1
    | ok _ =>
      rw [after_ok]
      refine (ih (h.next h1) fun d hd => h1.abides.grows _ _ (hrest d hd)).mono ?_
      exact fun _ _ _ h2 => h2.after h1.abides

theorem runSetup_sealing (he : e.IsSealing) {c : Class} (h : Upright [(c.name, c)] i t s)
    (hn : s.state c.name = initializing) (ho : s.owner = some i) :
    (runSetup e c).Meets (.sealing i) t (fun _ t' s' => Honors i s t' s') s := by
  refine meets_bind.2 ((seed_sealing he h (List.Subset.refl _) hn ho).mono fun r t1 s1 h1 => ?_)
  cases r with
  | error trap => exact h1
  | ok _ =>
    have h1u := h.next h1
    have hc := h1u.known _ List.mem_cons_self
    rw [after_ok, meets_bind]
    refine (setUpAll_sealing he (h1u.weaken (List.nil_subset _)) fun d hd =>
      h1u.sane.closed.above hc hd).mono fun r t2 s2 h2 => ?_
    have h12 := h2.after h1.abides
    cases r with
    | error trap => exact h12
    | ok _ =>
      rw [after_ok]
      split
      · exact h12
      · rename_i m hm
        have ho : Known.Owns [(c.name, c)] c m := .of_declaredMethod? List.mem_cons_self hm
        have rest : Sealing [(c.name, c)] (do
            pass (.initializer c.name)
            let _ ← invokeMethod e c m [] : Exec Unit) :=
          .bind (.lift (Prog.isSober_pass rfl)) fun _ =>
            .bind (sealing_invokeMethod he ho []) fun _ => .pure ()
        exact (rest i t2 s2 (h.next h12)).mono fun _ _ _ h3 => h3.after h12.abides

end SetUp

end Exec

namespace Scene

variable {i : Nat} {n : ClassName} {s s1 s3 s4 s7 s8 : Scene}

structure Begins (i : Nat) (n : ClassName) (s s' : Scene) : Prop where
  fresh : s.state n = uninitialized
  sane : s'.Sane
  grows : ∀ k c, s.found k = some c → s'.found k = some c
  lock : s'.machine.lock = s.machine.lock
  owner : s'.owner = some i
  state : s'.state n = initializing
  others : ∀ k, k ≠ n → s'.state k = s.state k
  inside : ∀ k, k ≠ n → s'.Inside i k → s.Inside i k
  passed : s.passed <:+ s'.passed

theorem Undisturbed.still_pass {x : Sign} (h : s.Undisturbed i s1)
    (h' : (s1.pass i x).Undisturbed i s3) (ho : s.owner = some i) :
    s3.machine.lock = s.machine.lock ∧ ∀ k, s3.state k = s.state k := by
  have hl := (learns_pass i x s1).lock.trans (h.lock ho)
  have ho2 : (s1.pass i x).owner = some i := (owner_of_lock_eq hl).trans ho
  exact ⟨(h'.lock ho2).trans hl, fun k =>
    (h'.states ho2 k).trans ((state_pass i x s1 k).trans (h.states ho k))⟩

theorem begins (hn : s.state n = uninitialized) (ho : s.owner = some i) (hr1 : s.Undisturbed i s1)
    (hs3 : s3.Sane) (hr3 : (s1.pass i (.noted (.initializing n))).Undisturbed i s3) :
    s.Begins i n (s3.setting n initializing) := by
  obtain ⟨lock, states⟩ := hr1.still_pass hr3 ho
  have hl := learns_pass i (.noted (.initializing n)) s1
  exact
    { fresh := hn
      sane := ⟨hs3.closed, hs3.depth⟩
      grows := fun k c hc => hr3.grows k c (hl.classes.grows k c (hr1.grows k c hc))
      lock
      owner := (owner_of_lock_eq lock).trans ho
      state := state_setting_self n initializing s3
      others := fun k hk => (state_setting_of_ne hk.symm _ _).trans (states k)
      inside := fun k hk hi => by
        refine (inside_of_own hr1.own).1 (inside_pass ?_ ((inside_of_own hr3.own).1 hi))
        rintro ⟨⟩
        exact hk rfl
      passed := hr1.passed.trans ((List.suffix_cons _ _).trans hr3.passed) }

theorem Begins.engaged (h : s.Begins i n s4) (hs : s.Engaged i) : s4.Engaged i := by
  intro k hk
  refine ⟨?_, h.owner⟩
  by_cases hkn : k = n
  · exact hkn ▸ h.state
  · exact (h.others k hkn).trans (hs k (h.inside k hkn hk)).1

-- The thread leaves the setup, which is as if it had never been in it.
theorem Begins.finish (h : s.Begins i n s4) (ha : s4.Abides i s7) (hs8 : s8.Sane)
    (hr : (s7.setting n initialized).Undisturbed i s8) :
    s.Abides i (s8.pass i (.noted (.initialized n))) := by
  have hl := learns_pass i (.noted (.initialized n)) s8
  have ho7 : (s7.setting n initialized).owner = some i := ha.owner h.owner
  exact
    { sane := hs8.pass i _
      grows := fun k c hc =>
        hl.classes.grows k c (hr.grows k c (ha.grows k c (h.grows k c hc)))
      lock := fun _ => hl.lock.trans ((hr.lock ho7).trans ((ha.lock h.owner).trans h.lock))
      busy := fun _ k hk => by
        have hkn : k ≠ n := by
          rintro rfl
          cases h.fresh.symm.trans hk
        rw [state_pass, hr.states ho7, state_setting_of_ne hkn.symm]
        exact ha.busy h.owner k ((h.others k hkn).trans hk)
      inside := fun k hk => by
        have hkn : k ≠ n := by
          rintro rfl
          exact hk.2 List.mem_cons_self
        have hx : Sign.noted (.initialized n) ≠ .noted (.initializing k) := nofun
        have h8 := inside_pass hx hk
        exact h.inside k hkn (ha.inside k ((inside_of_own hr.own).1 h8))
      passed := h.passed.trans (ha.passed.trans (hr.passed.trans (List.suffix_cons _ _))) }

end Scene

namespace Exec

variable {e : Engine} {i : Nat} {t : Thread} {s : Scene}

section SetUp

theorem pass_sealing {x : Sign} {f : Unit → Exec α} {Q : Post α} (hs : s.Sane)
    (h : ∀ s1, s1.Sane → s.Undisturbed i s1 → (f ()).Meets (.sealing i) t Q (s1.pass i x)) :
    (pass x >>= f).Meets (.sealing i) t Q s := by
  refine meets_bind.2 (meets_lift.2 fun s1 hr => ?_)
  obtain ⟨hs1, hr1⟩ := hr hs
  exact ⟨Scene.sealing_pass, h s1 hs1 hr1⟩

theorem update_sealing {g : Machine → Machine} {f : Unit → Exec α} {Q : Post α} (hs : s.Sane)
    (h : ∀ s1, s1.Sane → s.Undisturbed i s1 →
      (Contract.sealing i).guarantee s1 (s1.become (g s1.machine)) ∧
        (f ()).Meets (.sealing i) t Q (s1.become (g s1.machine))) :
    (update g >>= f).Meets (.sealing i) t Q s := by
  refine meets_bind.2 (meets_lift.2 fun s1 hr => ?_)
  obtain ⟨hs1, hr1⟩ := hr hs
  exact h s1 hs1 hr1

theorem setUpOnce_sealing (he : e.IsSealing) {c : Class} (h : Upright [(c.name, c)] i t s)
    (hn : s.state c.name = uninitialized) (ho : s.owner = some i) :
    (setUpOnce e c).Meets (.sealing i) t (fun _ t' s' => Honors i s t' s') s := by
  unfold setUpOnce
  refine pass_sealing h.sane fun s1 hs1 hr1 => update_sealing (hs1.pass i _) fun s3 hs3 hr3 => ?_
  have hb := Scene.begins hn ho hr1 hs3 hr3
  have hn3 := ((hr1.still_pass hr3 ho).2 c.name).trans hn
  refine ⟨Scene.sealing_setting hb.owner fun hn => ?_, ?_⟩
  · cases hn3.symm.trans hn
  have hu : Upright [(c.name, c)] i t (s3.setting c.name initializing) :=
    { h with
      sane := hb.sane
      engaged := hb.engaged h.engaged
      known := fun e he => hb.grows _ _ (h.known e he) }
  rw [meets_bind, meets_attempt]
  refine (runSetup_sealing he hu hb.state hb.owner).mono fun r t5 s5 h5 => ?_
  have finish {s6 : Scene} (ha : s5.Abides i s6) : (do
      update (·.setInitState c.name .initialized)
      note (.initialized c.name)
      ofTrap r : Exec Unit).Meets (.sealing i) t5 (fun _ t' s' => Honors i s t' s') s6 := by
    refine update_sealing ha.sane fun s7 hs7 hr7 => ?_
    have ha7 := (h5.abides.trans ha).trans (hr7.abides hs7)
    refine ⟨Scene.sealing_setting (ha7.owner hb.owner) fun _ => rfl, ?_⟩
    refine pass_sealing ⟨hs7.closed, hs7.depth⟩ fun s8 hs8 hr8 => meets_ofTrap.2 ?_
    exact ⟨h5.id, h5.owned, hb.finish ha7 hs8 hr8⟩
  rw [after_ok]
  dsimp only
  split
  · refine pass_sealing h5.abides.sane fun s6 hs6 hr6 => finish ?_
    exact (hr6.abides hs6).trans (Scene.abides_pass hs6 rfl)
  · exact finish (.refl i h5.abides.sane)

theorem sealing_setUp (he : e.IsSealing) (c : Class) : Sealing [(c.name, c)] (setUp e c) := by
  have last : Sealing [(c.name, c)] (pass (.setUpLeft c.name)) := .lift (Prog.isSober_pass rfl)
  refine .attempt_bind ?_ fun r => .bind last fun _ => .ofTrap r
  refine .bind (.lift (Prog.isMild_read _).isSober) fun state => ?_
  split
  · refine fun i t s h => locked_sealing h fun s1 h1 _ ho => ?_
    refine meets_bind.2 (meets_lift.2 fun s2 hr => ?_)
    obtain ⟨hs2, hr2⟩ := hr h1.sane
    have ha := hr2.abides hs2
    have h2 := h1.next ⟨h1.id, h1.owned, ha⟩
    refine ⟨Scene.sealing_learns (.refl _), ?_⟩
    change Meets (.sealing i) (if s2.state c.name = uninitialized then setUpOnce e c else pure ())
      t (fun _ t' s' => Honors i s1 t' s') s2
    split
    · rename_i hn
      exact (setUpOnce_sealing he h2 hn (ha.owner ho)).mono fun _ _ _ h3 => h3.after ha
    · exact ⟨h1.id, h1.owned, ha⟩
  · exact .pure ()

end SetUp

end Exec

end BytecodeMachine
