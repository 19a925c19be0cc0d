import BytecodeMachine.Proofs.Construction.Code
import BytecodeMachine.Proofs.Setup.Calls
import BytecodeMachine.Proofs.Setup.Preparation

namespace BytecodeMachine

variable {α β : Type}

open InitState

namespace Scene

variable {i : Nat} {n : ClassName} {s s1 s2 : Scene}

-- The setup of one class as a whole, which leaves no class more under way than there were.
theorem visit_once (h : s.Visit i none s1) (hn : s1.state n = uninitialized)
    (h' : (s1.setting n initializing).Visit i (some n) s2) :
    s.Visit i none (s2.setting n initialized) where
  libraries := h'.libraries.trans h.libraries
  grows k c hc := h'.grows k c (h.grows k c hc)
  statics k hk := h'.statics k (h.statics k hk)
  started k hk := by
    have hx : initializing ≠ uninitialized := nofun
    have hy : initialized ≠ uninitialized := nofun
    exact started_setting hy (h'.started k (started_setting hx (h.started k hk)))
  done k hk := by
    have h1 := h.done k hk
    by_cases hnk : n = k
    · rw [hnk, state_setting_self]
    · rw [state_setting_of_ne hnk]
      refine h'.done k ?_
      rwa [state_setting_of_ne hnk]
  lock ho := (h'.lock (h.owner ho)).trans (h.lock ho)
  free ho := h'.free (h.free ho)
  busy ho k := by
    by_cases hnk : n = k
    · subst hnk
      rw [state_setting_self]
      refine ⟨nofun, fun hk => ?_⟩
      rw [← h.busy ho n, hn] at hk
      cases hk
    · rw [state_setting_of_ne hnk, h'.busy (h.owner ho), state_setting_of_ne hnk, h.busy ho]
  once ho k hk _ := by
    have hk1 := (h.busy ho k).2 hk
    have hnk : n ≠ k := by
      rintro rfl
      rw [hn] at hk1
      cases hk1
    refine (h'.once (h.owner ho) k ?_ fun he => hnk (Option.some.inj he).symm).trans ?_
    · rwa [state_setting_of_ne hnk]
    · exact h.once ho k hk nofun
  passed := List.Subset.trans h.passed h'.passed

end Scene

namespace Exec

variable {e : Engine} {z : Realm} {i : Nat} {t : Thread} {s : Scene}

theorem setStatic_settles (f : Field) (v : Value) (ht : t.id = i) (hs : s.Coherent) :
    (setStatic f v).Meets (.setup i) t (fun r t' s' => Settles i s r t' s' ∧
      (s'.machine.statics.get? (f.owner, f.index)).isSome = true) s := by
  subst ht
  refine locked_within hs fun s1 hh => update_within hh.coherent fun s2 hs2 hr2 => ?_
  have hn : s2.Neutral (s2.become (s2.machine.setStatic f v)) :=
    ⟨(Machine.keeps_setStatic f v _).loads, rfl⟩
  refine ⟨Scene.guarantee_neutral hn, (hr2.trans (hn.rest t.id)).passage (hn.coherent hs2), ?_⟩
  refine fun s3 hp3 hrel => ⟨⟨rfl, hp3⟩, hrel.statics _ ?_⟩
  simp only [Scene.become, Machine.setStatic, Entries.get?_put, if_true]
  rfl

theorem seed_settles (he : e.Settled) (fields : List Field) (ht : t.id = i)
    (hs : s.Coherent) :
    (seed e fields).Meets (.setup i) t (fun r t' s' => Settles i s r t' s' ∧
      (r = .ok () → s'.Seeded fields)) s := by
  induction fields generalizing t s with
  | nil => exact ⟨⟨ht, .refl i hs⟩, fun _ _ hf => absurd hf List.not_mem_nil⟩
  | cons f rest ih =>
    have next {t1 : Thread} {s1 : Scene} (ht1 : t1.id = i) (hp : s.Passage i s1)
        (hf : f.isStatic = true → (s1.machine.statics.get? (f.owner, f.index)).isSome = true) :
        (seed e rest).Meets (.setup i) t1 (fun r t' s' => Settles i s r t' s' ∧
          (r = .ok () → s'.Seeded (f :: rest))) s1 := by
      refine (ih ht1 hp.coherent).mono fun r t' s' h => ⟨⟨h.1.1, hp.trans h.1.2⟩, fun hr => ?_⟩
      exact List.forall_mem_cons.2 ⟨fun hst => h.1.2.visit.statics _ (hf hst), h.2 hr⟩
    unfold seed
    dsimp only
    split
    · have hb : Built e .core .host [] (firstValue e f) := .firstValue f
      refine meets_bind.2 ((hb.settling he i t s ht (hs.admits i)).mono fun r t1 s1 h1 => ?_)
      cases r with
      | error trap => exact ⟨h1, fun hr => by cases hr⟩
      | ok v =>
        rw [after_ok, meets_bind]
        refine (setStatic_settles f v h1.1 h1.2.coherent).mono fun r t2 s2 h2 => ?_
        have hp2 := h1.2.trans h2.1.2
        cases r with
        | error trap => exact ⟨⟨h2.1.1, hp2⟩, fun hr => by cases hr⟩
        | ok _ => exact next h2.1.1 hp2 fun _ => h2.2
    · rename_i hst
      exact next ht (.refl i hs) fun h => absurd h hst

theorem setUpAll_settles (he : e.Settled) (cs : List Class) (ht : t.id = i) (hs : s.Admits z [] i)
    (hcs : ∀ c ∈ cs, s.found c.name = some c ∧ z.SetsUp c.name) :
    (setUpAll e cs).Meets (.setup i) t (fun r t' s' => Settles i s r t' s' ∧
      (r = .ok () → ∀ c ∈ cs, s'.state c.name ≠ uninitialized)) s := by
  induction cs generalizing t s with
  | nil => exact ⟨⟨ht, .refl i hs.coherent⟩, fun _ _ hc => nomatch hc⟩
  | cons c rest ih =>
    obtain ⟨hc, hz⟩ := hcs c List.mem_cons_self
    have hnear (h : z = .every) := (hs.near h).weaken (some c.name)
    refine meets_bind.2 ((he.setUp z c i t s ht hs.coherent hc hz hnear).mono fun r t1 s1 h1 => ?_)
    obtain ⟨⟨ht1, hp1⟩, hleft⟩ := h1
    have hstate := hleft.started
    cases r with
    | error trap => exact ⟨⟨ht1, hp1⟩, nofun⟩
    | ok _ =>
      have hcs1 (d : Class) (hd : d ∈ rest) : s1.found d.name = some d ∧ z.SetsUp d.name :=
        (hcs d (List.mem_cons_of_mem c hd)).imp_left (hp1.visit.grows _ _)
      rw [after_ok]
      refine (ih ht1 (hs.passage hp1) hcs1).mono fun r t2 s2 h2 => ?_
      refine ⟨⟨h2.1.1, hp1.trans h2.1.2⟩, fun hr => ?_⟩
      exact List.forall_mem_cons.2 ⟨h2.1.2.visit.started _ hstate, h2.2 hr⟩

-- The superclass comes first, and until it has begun nothing but core classes are set up.
theorem setUpAbove_settles (he : e.Settled) (c : Class) (ht : t.id = i) (hs : s.Coherent)
    (hcs : ∀ d ∈ c.above true, s.found d.name = some d ∧ z.SetsUp d.name)
    (hnear : z = .every → s.Near i (c.superclass.map (·.name))) :
    (setUpAll e (c.superclass.toList ++ c.interfaces)).Meets (.setup i) t
      (fun r t' s' => Settles i s r t' s' ∧ (r = .ok () → s'.Admits z [] i ∧
        ∀ d ∈ c.above true, s'.state d.name ≠ uninitialized)) s := by
  change ∀ d ∈ c.superclass.toList ++ c.interfaces, _ at hcs
  change (setUpAll e (c.superclass.toList ++ c.interfaces)).Meets (.setup i) t
    (fun r t' s' => Settles i s r t' s' ∧ (r = .ok () → s'.Admits z [] i ∧
      ∀ d ∈ c.superclass.toList ++ c.interfaces, s'.state d.name ≠ uninitialized)) s
  cases hk : c.superclass with
  | none =>
    rw [hk] at hcs hnear
    have ha : s.Admits z [] i := ⟨hs, nofun, hnear⟩
    refine (setUpAll_settles he _ ht ha hcs).mono fun r t' s' h => ⟨h.1, fun hr => ?_⟩
    exact ⟨ha.passage h.1.2, h.2 hr⟩
  | some k =>
    rw [hk] at hcs hnear
    obtain ⟨hkf, hkz⟩ := hcs k List.mem_cons_self
    refine meets_bind.2 ((he.setUp z k i t s ht hs hkf hkz hnear).mono fun r t1 s1 h1 => ?_)
    obtain ⟨⟨ht1, hp1⟩, hleft⟩ := h1
    have hstate := hleft.started
    cases r with
    | error trap => exact ⟨⟨ht1, hp1⟩, nofun⟩
    | ok _ =>
      have hcs1 (d : Class) (hd : d ∈ c.interfaces) : s1.found d.name = some d ∧ z.SetsUp d.name :=
        (hcs d (List.mem_cons_of_mem k hd)).imp_left (hp1.visit.grows _ _)
      have ha : s1.Admits z [] i :=
        ⟨hp1.coherent, nofun, fun hz => ((hnear hz).visit hs hp1.visit).fill hstate⟩
      rw [after_ok]
      refine (setUpAll_settles he c.interfaces ht1 ha hcs1).mono fun r t2 s2 h2 => ?_
      refine ⟨⟨h2.1.1, hp1.trans h2.1.2⟩, fun hr => ⟨ha.passage h2.1.2, ?_⟩⟩
      exact List.forall_mem_cons.2 ⟨h2.1.2.visit.started _ hstate, h2.2 hr⟩

theorem above_setsUp {c : Class} (hs : s.Coherent) (hc : s.found c.name = some c)
    (hz : z.SetsUp c.name) :
    ∀ d ∈ c.above true, s.found d.name = some d ∧ z.SetsUp d.name := by
  intro d hd
  refine ⟨hs.closed.above hc hd, fun h => ?_⟩
  obtain ⟨rest, hl⟩ := hs.libraries
  have hclosed := hs.closed
  rw [hl] at hclosed
  exact CoreLibrary.has_of_mem_above hclosed hc (hz h) hd

theorem realm_of_initializer {c : Class} {m : Method} {type : MethodType} (hs : s.Coherent)
    (hc : s.found c.name = some c) (hz : z.SetsUp c.name)
    (hm : c.declaredMethod? .staticInitializer type = some m) : z = .every := by
  cases z with
  | every => rfl
  | core =>
    obtain ⟨rest, hl⟩ := hs.libraries
    have hclosed := hs.closed
    rw [hl] at hclosed
    rw [CoreLibrary.declaredMethod?_staticInitializer hclosed hc (hz rfl)] at hm
    cases hm

structure Arranged (i : Nat) (c : Class) (s : Scene) (r : Except Trap Unit) (t' : Thread)
    (s' : Scene) : Prop where
  id : t'.id = i
  coherent : s'.Coherent
  visit : s.Visit i (some c.name) s'
  whole : r = .ok () → s'.Whole c

theorem runSetup_arranged (he : e.Settled) {c : Class} (ht : t.id = i) (hs : s.Coherent)
    (ho : s.owner = some i) (hc : s.found c.name = some c) (hn : s.state c.name = initializing)
    (h0 : s.calls c.name = 0) (hz : z.SetsUp c.name)
    (hnear : z = .every → s.Near i (c.superclass.map (·.name))) :
    (runSetup e c).Meets (.setup i) t (Arranged i c s) s := by
  refine meets_bind.2 ((seed_settles he c.fields ht hs).mono fun r t1 s1 h1 => ?_)
  obtain ⟨⟨ht1, hp1⟩, hseed⟩ := h1
  cases r with
  | error trap => exact ⟨ht1, hp1.coherent, hp1.visit.except _, nofun⟩
  | ok _ =>
    have hc1 := hp1.visit.grows _ _ hc
    have hnear1 (h : z = .every) := (hnear h).visit hs hp1.visit
    rw [after_ok, meets_bind]
    refine (setUpAbove_settles he c ht1 hp1.coherent (above_setsUp hp1.coherent hc1 hz)
      hnear1).mono fun r t2 s2 h2 => ?_
    obtain ⟨⟨ht2, hp2⟩, hup⟩ := h2
    have hp := hp1.trans hp2
    cases r with
    | error trap => exact ⟨ht2, hp.coherent, hp.visit.except _, nofun⟩
    | ok _ =>
      obtain ⟨hadm, habove⟩ := hup rfl
      rw [after_ok]
      split
      · rename_i hm
        refine ⟨ht2, hp.coherent, hp.visit.except _, fun _ => ⟨habove, fun h => ?_⟩⟩
        rw [hm] at h
        cases h
      · rename_i m hm
        obtain rfl := realm_of_initializer hs hc hz hm
        refine meets_bind.2 (pass_within hp.coherent fun s3 hs3 hr3 => ?_)
        have hp3 := hp.trans (hr3.passage hs3)
        have ho3 := hp3.visit.owner ho
        have hnear3 := (hadm.near rfl).visit hp.coherent hr3.visit
        have habove3 (d : Class) (hd : d ∈ c.above true) : s3.state d.name ≠ uninitialized :=
          hr3.visit.started _ (habove d hd)
        have hseed3 : s3.Seeded c.fields := fun f hf hst =>
          (hp2.visit.trans hr3.visit).statics _ (hseed rfl f hf hst)
        have hready : s3.Ready i c.name :=
          { owner := ho3
            state := (hp3.visit.busy ho _).2 hn
            first := (hp3.visit.once ho _ hn nofun).trans h0
            prepared := fun hsp => ⟨c, hp3.visit.grows _ _ hc,
              hs3.prepared ho3 hsp hnear3 (hp3.visit.grows _ _ hc) hseed3 habove3⟩ }
        have hv4 : s3.Visit i (some c.name) (s3.pass i (.initializer c.name)) :=
          Scene.visit_pass fun _ n hx _ => by cases hx; rfl
        have hadm4 : (s3.pass i (.initializer c.name)).Admits .every [] i :=
          ⟨hs3.pass hready, nofun, fun _ => hnear3.visit hs3 hv4⟩
        have hv := (hp3.visit.except _).trans hv4
        have hcalls : (s3.pass i (.initializer c.name)).calls c.name = 1 := by
          rw [Scene.calls_pass, hready.first, Sign.isCall, decide_eq_true rfl]
          rfl
        refine ⟨hready, ?_⟩
        rw [after_ok, meets_bind]
        refine (settling_call he c m [] i t2 _ ht2 hadm4).mono fun r t5 s5 h5 => ?_
        have harr : Arranged i c s (.ok ()) t5 s5 :=
          { id := h5.1
            coherent := h5.2.coherent
            visit := hv.trans (h5.2.visit.except _)
            whole := fun _ =>
              ⟨fun d hd => (hv4.trans (h5.2.visit.except _)).started _ (habove3 d hd), fun _ =>
                (h5.2.visit.once (hv4.owner ho3) _ ((hv4.busy ho3 _).2 hready.state) nofun).trans
                  hcalls⟩ }
        cases r with
        | error trap => exact ⟨harr.id, harr.coherent, harr.visit, nofun⟩
        | ok _ => exact harr

theorem near_begin {c : Class} (hc : s.found c.name = some c)
    (hnear : s.Near i (some c.name)) :
    (s.setting c.name initializing).Near i (c.superclass.map (·.name)) := by
  have hx : initializing ≠ uninitialized := nofun
  intro ho hsp n d hd hn k hk
  by_cases hne : c.name = n
  · subst hne
    cases hc.symm.trans hd
    rw [hk]
    exact .inr rfl
  · rw [Scene.state_setting_of_ne hne] at hn
    refine .inl ?_
    rcases hnear ho hsp n d hd hn k hk with h | h
    · exact Scene.started_setting hx h
    · rw [Option.some.inj h, Scene.state_setting_self]
      exact hx

theorem setUpOnce_settles (he : e.Settled) {c : Class} (ht : t.id = i) (hs : s.Coherent)
    (ho : s.owner = some i) (hc : s.found c.name = some c) (hn : s.state c.name = uninitialized)
    (hz : z.SetsUp c.name) (hnear : z = .every → s.Near i (some c.name)) :
    (setUpOnce e c).Meets (.setup i) t
      (fun r t' s' => Settles i s r t' s' ∧ s'.state c.name = initialized) s := by
  unfold setUpOnce
  refine meets_bind.2 (pass_within hs fun s1 hs1 hr1 => ⟨trivial, ?_⟩)
  have hr2 : s1.Rest i (s1.pass i (.noted (.initializing c.name))) :=
    Scene.rest_pass fun _ _ hx => nomatch hx
  have hs2 := hs1.pass (i := i) (x := .noted (.initializing c.name)) trivial
  have hmem : (i, .noted (.initializing c.name)) ∈ (s1.pass i (.noted (.initializing c.name))).passed :=
    List.mem_cons_self
  generalize s1.pass i (.noted (.initializing c.name)) = s2 at hr2 hs2 hmem
  rw [after_ok]
  refine meets_bind.2 (update_within hs2 fun s3 hs3 hr3 => ?_)
  have hr := (hr1.trans hr2).trans hr3
  have ho3 := hr.visit.owner ho
  have hn3 := (hr.still ho c.name).trans hn
  have hc3 := hr.visit.grows _ _ hc
  have hf3 : (s3.found c.name).isSome = true := by
    rw [hc3]
    rfl
  have hmem3 := hr3.visit.passed hmem
  refine ⟨Scene.guarantee_begin hn3 ho3 hmem3 hf3, ?_⟩
  rw [after_ok, meets_bind, meets_attempt]
  have hs4 := hs3.begin hn3 ho3 hmem3 hf3
  have h0 : (s3.setting c.name initializing).calls c.name = 0 := hs3.calls_zero c.name hn3
  refine (runSetup_arranged he ht hs4 ho3 hc3 (Scene.state_setting_self _ _ _) h0 hz
    fun h => near_begin hc3 ((hnear h).visit hs hr.visit)).mono fun r t5 s5 h5 => ?_
  -- What failed has spoiled the order for good, so nothing has to be set up then.
  have finish {s6 : Scene} (hs6 : s6.Coherent) (hr6 : s5.Rest i s6) (hok : s6.Spared → r = .ok ()) :
      (do
        update (·.setInitState c.name .initialized)
        note (.initialized c.name)
        ofTrap r : Exec Unit).Meets (.setup i) t5
          (fun r t' s' => Settles i s r t' s' ∧ s'.state c.name = initialized) s6 := by
    refine meets_bind.2 (update_within hs6 fun s7 hs7 hr7 => ?_)
    have hv7 := (h5.visit.trans (hr6.visit.except _)).trans (hr7.visit.except _)
    have ho7 := hv7.owner ho3
    have hn7 := (hv7.busy ho3 c.name).2 (Scene.state_setting_self _ _ _)
    have whole7 (hsp : s7.Spared) (d : Class) (hd : s7.found c.name = some d) : s7.Whole d := by
      cases (hv7.grows _ _ hc3).symm.trans hd
      have hwhole := h5.whole (hok (hr7.visit.spared hsp))
      have hv57 := hr6.visit.trans hr7.visit
      have ho5 := h5.visit.owner ho3
      have hn5 := (h5.visit.busy ho3 c.name).2 (Scene.state_setting_self _ _ _)
      exact ⟨fun k hk => hv57.started _ (hwhole.above k hk), fun hm =>
        (hv57.once ho5 _ hn5 nofun).trans (hwhole.called hm)⟩
    refine ⟨Scene.guarantee_finish hn7 ho7 whole7, ?_⟩
    have hs8 := hs7.finish hn7 whole7
    have hv8 := Scene.visit_once hr.visit hn3 hv7
    rw [after_ok]
    refine meets_bind.2 (pass_within hs8 fun s9 hs9 hr9 => ?_)
    have hn9 := hr9.visit.done _ (Scene.state_setting_self c.name initialized s7)
    refine ⟨hn9, ?_⟩
    have hr10 : s9.Rest i (s9.pass i (.noted (.initialized c.name))) :=
      Scene.rest_pass fun _ _ hx => nomatch hx
    rw [after_ok, meets_ofTrap]
    refine ⟨⟨h5.id, hs9.pass hn9, (hv8.trans hr9.visit).trans hr10.visit⟩, ?_⟩
    rw [Scene.state_pass]
    exact hn9
  rw [after_ok]
  cases r with
  | ok _ => exact finish h5.coherent (.refl i s5) fun _ => rfl
  | error trap =>
    refine meets_bind.2 (pass_within h5.coherent fun s6 hs6 hr6 => ⟨trivial, ?_⟩)
    have hr7 : s6.Rest i (s6.pass i (.setUpFailed c.name)) :=
      Scene.rest_pass fun _ _ hx => nomatch hx
    refine finish (hs6.pass trivial) (hr6.trans hr7) fun hsp => ?_
    cases (Scene.spared_pass.1 hsp).1

def Reached (i : Nat) (n : ClassName) (s : Scene) : Prop :=
  s.state n ≠ uninitialized ∧ (s.state n = initializing → s.owner = some i)

theorem setUpUnlessDone_settles (he : e.Settled) {c : Class} (ht : t.id = i) (hs : s.Coherent)
    (hc : s.found c.name = some c) (hz : z.SetsUp c.name)
    (hnear : z = .every → s.Near i (some c.name)) :
    (do
      if (← read (·.initState c.name)) ≠ .initialized then
        locked do
          if (← read (·.initState c.name)) = .uninitialized then
            setUpOnce e c : Exec Unit).Meets (.setup i) t
      (fun r t' s' => Settles i s r t' s' ∧ Reached i c.name s') s := by
  refine read_within hs fun s1 hs1 hr1 => ?_
  split
  · subst ht
    refine locked_within hs1 fun s2 hh => read_within hh.coherent fun s3 hs3 hr3 => ?_
    have hc3 := hr3.visit.grows _ _ (hh.grows _ _ (hr1.visit.grows _ _ hc))
    have ho3 := hr3.visit.owner hh.owner
    split
    · rename_i hn
      have hnear3 (h : z = .every) := (((hnear h).visit hs hr1.visit).held hs1 hh).visit hh.coherent
        hr3.visit
      refine (setUpOnce_settles he rfl hs3 ho3 hc3 hn hz hnear3).mono fun r t4 s4 h4 => ?_
      refine ⟨(hr3.passage hs3).trans h4.1.2, fun s5 hp5 hrel => ?_⟩
      have hn5 := (hrel.state c.name).trans h4.2
      refine ⟨⟨h4.1.1, (hr1.passage hs1).trans hp5⟩, by rw [hn5]; exact nofun, fun h => ?_⟩
      rw [hn5] at h
      cases h
    · rename_i hn
      refine ⟨hr3.passage hs3, fun s5 hp5 hrel => ?_⟩
      refine ⟨⟨rfl, (hr1.passage hs1).trans hp5⟩, by rwa [hrel.state], fun h => ?_⟩
      -- Met in the middle, the class was under way before the lock was taken once more.
      refine hp5.visit.owner ?_
      by_contra hne
      refine hh.fresh hne c.name ((hr3.visit.busy hh.owner c.name).1 ?_)
      exact (hrel.state c.name).symm.trans h
  · rename_i hn
    have hn1 : s1.state c.name = initialized := by
      by_contra h
      exact hn h
    refine ⟨⟨ht, hr1.passage hs1⟩, by rw [hn1]; exact nofun, fun h => ?_⟩
    rw [hn1] at h
    cases h

theorem setUp_settles (he : e.Settled) {c : Class} (ht : t.id = i) (hs : s.Coherent)
    (hc : s.found c.name = some c) (hz : z.SetsUp c.name)
    (hnear : z = .every → s.Near i (some c.name)) :
    (setUp e c).Meets (.setup i) t
      (fun r t' s' => Settles i s r t' s' ∧ s'.Left i c.name) s := by
  refine meets_ending.2 ((setUpUnlessDone_settles he ht hs hc hz hnear).mono fun r t1 s1 h1 => ?_)
  obtain ⟨⟨ht1, hp1⟩, hn1, ho1⟩ := h1
  refine pass_within hp1.coherent fun s2 hs2 hr2 => ?_
  have hn2 := hr2.visit.started _ hn1
  have howner (h : s2.state c.name = initializing) : s2.owner = some i := by
    cases hx : s1.state c.name with
    | uninitialized => exact absurd hx hn1
    | initializing => exact hr2.visit.owner (ho1 hx)
    | initialized =>
      rw [hr2.visit.done _ hx] at h
      cases h
  have hleft : s2.Left i c.name := hs2.left hn2 howner
  have hr3 : s2.Rest i (s2.pass i (.setUpLeft c.name)) :=
    Scene.rest_pass fun _ _ hx => nomatch hx
  have hp3 := (hp1.trans (hr2.passage hs2)).trans (hr3.passage (hs2.pass hleft))
  refine ⟨hleft, ⟨ht1, hp3⟩, hp3.coherent.left ?_ fun h => ?_⟩
  · rw [Scene.state_pass]
    exact hn2
  · rw [Scene.state_pass] at h
    rw [Scene.owner_pass]
    exact howner h

end Exec

end BytecodeMachine
