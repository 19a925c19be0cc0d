import BytecodeMachine.Proofs.Balance
import BytecodeMachine.Proofs.Trail

namespace BytecodeMachine

variable {α β : Type}

namespace Exec

structure Outcome (i : Nat) (t : Thread) (s : Scene) (r : Except Trap α) (t' : Thread)
    (s' : Scene) : Prop where
  due : ∀ trap, s'.Doomed i trap → r = .error trap
  dumps : s'.dumps i = s.dumps i
  exitStatus : s.machine.KeepsExit s'.machine
  reported : t'.fatalReported = t.fatalReported

def Strict (x : Exec α) : Prop :=
  ∀ (t : Thread) (i : Nat) (s : Scene), s.Clean i → x.Meets (.orderly i) t (Outcome i t s) s

namespace Outcome

variable {i : Nat} {t t1 t2 : Thread} {s s1 s2 : Scene}

theorem of_calm (hs : s.Clean i) (h : s.Calm i s1) (r : Except Trap α)
    (ht : t1.fatalReported = t.fatalReported) : Outcome i t s r t1 s1 :=
  ⟨fun trap hd => absurd (h.doomed trap hd) (hs trap), h.dumps, h.exitStatus, ht⟩

theorem clean {a : α} (h : Outcome i t s (.ok a) t1 s1) : s1.Clean i :=
  fun trap hd => nomatch h.due trap hd

theorem clean_of_isCatchable {trap : Trap} (h : Outcome i t s (.error trap : Except Trap α) t1 s1)
    (ht : trap.isCatchable = true) : s1.Clean i := by
  intro trap' hd
  cases h.due trap' hd
  rw [hd.1] at ht
  cases ht

theorem error {trap : Trap} (h : Outcome i t s (.error trap : Except Trap α) t1 s1) :
    Outcome i t s (.error trap : Except Trap β) t1 s1 :=
  ⟨fun trap' hd => by cases h.due trap' hd; rfl, h.dumps, h.exitStatus, h.reported⟩

theorem after {r1 : Except Trap α} {r2 : Except Trap β} (h : Outcome i t s r1 t1 s1)
    (h' : Outcome i t1 s1 r2 t2 s2) : Outcome i t s r2 t2 s2 :=
  ⟨h'.due, h'.dumps.trans h.dumps, h.exitStatus.trans h'.exitStatus, h'.reported.trans h.reported⟩

theorem calm {r : Except Trap α} (h : Outcome i t s r t1 s1) (hc : s1.Calm i s2)
    (ht : t2.fatalReported = t1.fatalReported) : Outcome i t s r t2 s2 :=
  ⟨fun trap hd => h.due trap (hc.doomed trap hd), hc.dumps.trans h.dumps,
    h.exitStatus.trans hc.exitStatus, ht.trans h.reported⟩

theorem trapped {trap : Trap} (h : Outcome i t s (.error trap : Except Trap α) t1 s1) :
    Outcome i t s (.error trap : Except Trap α) t1 (s1.pass i (.trapped trap)) where
  due trap' hd := by
    rw [Scene.Doomed, Scene.own_pass] at hd
    rcases List.mem_cons.1 hd.2 with he | he
    · cases he
      rfl
    · exact h.due trap' ⟨hd.1, he⟩
  dumps := by
    rw [← h.dumps, Scene.dumps, Scene.own_pass, List.countP_cons_of_neg Bool.false_ne_true,
      Scene.dumps]
  exitStatus := h.exitStatus.trans (Scene.keepsExit_pass i (.trapped trap) s1)
  reported := h.reported

end Outcome

namespace Strict

theorem pure (a : α) : (Pure.pure a : Exec α).Strict :=
  fun _ _ _ hs => .of_calm hs (.refl _ _) _ rfl

theorem throw (trap : Trap) : (MonadExcept.throw trap : Exec α).Strict :=
  fun _ _ _ hs => .of_calm hs (.refl _ _) _ rfl

theorem fail (fault : Fault) : (Exec.fail fault : Exec α).Strict := throw _

theorem raise (cause : Cause) : (Exec.raise cause : Exec α).Strict := throw _

theorem get : (MonadState.get : Exec Thread).Strict :=
  fun _ _ _ hs => .of_calm hs (.refl _ _) _ rfl

theorem modify {f : Thread → Thread} (h : ∀ t, (f t).fatalReported = t.fatalReported) :
    (modify f : Exec PUnit).Strict :=
  fun t _ _ hs => .of_calm hs (.refl _ _) _ (h t)

theorem bind {x : Exec α} {f : α → Exec β} (hx : x.Strict) (hf : ∀ a, (f a).Strict) :
    (x >>= f).Strict := by
  intro t i s hs
  refine meets_bind.2 ((hx t i s hs).mono fun r t1 s1 h => ?_)
  cases r with
  | ok a => exact (hf a t1 i s1 h.clean).mono fun _ _ _ h' => h.after h'
  | error trap => exact h.error

theorem lift {p : Prog α} (hp : p.IsQuiet) : (Exec.lift p).Strict :=
  fun _ _ _ hs => lift_quiet hp fun _ _ hc => .of_calm hs hc _ rfl

theorem pass {x : Sign} (hx : x.isDump = false)
    (ht : ∀ trap, x = .trapped trap → trap.isCatchable = true) : (Exec.pass x).Strict := by
  intro t i s hs
  refine pass_meets (fun s' hc hd => ?_) fun s' hc => ?_
  · obtain ⟨trap, hd⟩ := hd
    exact absurd hd (hs.of_calm hc trap)
  · exact .of_calm hs (hc.trans (Scene.calm_pass hx ht)) _ rfl

theorem inFrame (action : FrameM α) : (Exec.inFrame action).Strict := by
  intro t i s hs
  cases hf : t.frames with
  | nil => exact (meets_inFrame_nil hf).2 (.of_calm hs (.refl _ _) _ rfl)
  | cons f rest => exact (meets_inFrame_cons hf).2 (.of_calm hs (.refl _ _) _ rfl)

theorem ending {x : Exec α} {p : Prog Unit} (hx : x.Strict) (hp : p.IsQuiet) :
    (x.ending (Exec.lift p)).Strict := by
  intro t i s hs
  refine meets_ending.2 ((hx t i s hs).mono fun r t1 s1 h => ?_)
  exact lift_quiet hp fun _ _ hc => h.calm hc rfl

theorem locked {x : Exec α} (hx : x.Strict) : (Exec.locked x).Strict := by
  refine bind get fun t => bind (lift (Prog.isQuiet_await _)) fun _ => ?_
  exact hx.ending (Prog.isQuiet_update Machine.keepsExit_unlock)

theorem resolve (res : List Library → Resolving α) : (Exec.resolve res).Strict := by
  refine bind (lift (Prog.isQuiet_act (Machine.keepsExit_resolve res))) fun r => ?_
  cases r with
  | ok a => exact pure a
  | error e => exact throw _

end Strict

def Accounted (i dumps : Nat) (r : Except Trap Unit) (t' : Thread) (s' : Scene) : Prop :=
  t'.frames = [] ∧ match r with
    | .error (.fatal _) =>
        t'.fatalReported = true ∧ s'.dumps i = dumps + 1 ∧ s'.machine.exitStatus.isSome = true
    | _ => t'.fatalReported = false ∧ s'.dumps i = dumps

structure Ended (limit i : Nat) (t : Thread) (s : Scene) (r : Except Trap Unit) (t' : Thread)
    (s' : Scene) : Prop where
  due : ∀ trap, s'.Doomed i trap → r = .error trap
  uncatchable : ∀ trap, r = .error trap → trap.isCatchable = false
  exitStatus : s.machine.KeepsExit s'.machine
  nested : limit ≠ 0 → t'.fatalReported = t.fatalReported ∧ s'.dumps i = s.dumps i
  outermost : limit = 0 → t.fatalReported = false → Accounted i (s.dumps i) r t' s'

theorem Ended.outcome {limit i : Nat} {t t' : Thread} {s s' : Scene} {r : Except Trap Unit}
    (h : Ended (limit + 1) i t s r t' s') : Outcome i t s r t' s' :=
  ⟨h.due, (h.nested (Nat.succ_ne_zero limit)).2, h.exitStatus, (h.nested (Nat.succ_ne_zero limit)).1⟩

end Exec

structure Engine.IsStrict (e : Engine) : Prop where
  setUp : ∀ c, (e.setUp c).Strict
  native : ∀ m arguments, (e.native m arguments).Strict
  run : ∀ (limit : Nat) (t : Thread) (i : Nat) (s : Scene), s.Clean i →
    (e.run limit).Meets (.orderly i) t (Exec.Ended limit i t s) s

theorem Engine.IsStrict.nested {e : Engine} (he : e.IsStrict) (limit : Nat) :
    (e.run (limit + 1)).Strict :=
  fun t i s hs => (he.run (limit + 1) t i s hs).mono fun _ _ _ h => h.outcome

namespace Exec

variable {e : Engine}

theorem strict_enterFrame (c : Class) (m : Method) (arguments : List Value) :
    (enterFrame c m arguments).Strict := by
  have next : (do
      let f ← ofExcept (Frame.enter c m arguments)
      modify (·.push f) : Exec Unit).Strict := by
    cases Frame.enter c m arguments with
    | ok f => exact .bind (.pure f) fun _ => .modify fun _ => rfl
    | error fault => exact .throw _
  refine .bind (.lift (Prog.isQuiet_read _)) fun b => ?_
  dsimp only
  split
  · exact .bind .get fun t => .bind (.lift (Prog.isQuiet_pass rfl)) fun _ => next
  · exact next

theorem strict_enterMethod (he : e.IsStrict) (c : Class) (m : Method) (arguments : List Value) :
    (enterMethod e c m arguments).Strict := by
  unfold enterMethod
  split
  · refine .bind (he.native m arguments) fun v => ?_
    cases v with
    | none => exact .pure ()
    | some v => exact .inFrame _
  · split
    · exact .raise _
    · exact strict_enterFrame c m arguments

theorem strict_takeResult : takeResult.Strict := by
  refine .bind .get fun t => ?_
  split
  · exact .fail _
  · refine .bind (.modify fun _ => rfl) fun _ => ?_
    split
    · exact .throw _
    · exact .pure _

theorem strict_invokeMethod (he : e.IsStrict) (c : Class) (m : Method) (arguments : List Value) :
    (invokeMethod e c m arguments).Strict := by
  refine .bind (.lift (Prog.isQuiet_pass rfl)) fun _ => .bind .get fun t => ?_
  refine .bind (.modify fun _ => rfl) fun _ => ?_
  have body : (do
      enterMethod e c m arguments
      e.run (t.depth + 1) : Exec Unit).Strict :=
    .bind (strict_enterMethod he c m arguments) fun _ => he.nested _
  intro t1 i s hs
  refine meets_bind.2 (meets_attempt.2 ((body t1 i s hs).mono fun r t2 s2 h => ?_))
  rw [after_ok]
  cases r with
  | ok _ => exact (strict_takeResult t2 i s2 h.clean).mono fun _ _ _ h' => h.after h'
  | error trap => exact h.error.calm (.refl _ _) rfl

theorem strict_deliver (v : Option Value) (rest : Frames) :
    (match v, rest with
      | some v, _ :: _ => push v
      | _, _ => pure () : Exec Unit).Strict := by
  split
  · exact .inFrame _
  · exact .pure ()

theorem strict_returnFrom (hasValue : Bool) : (returnFrom hasValue).Strict := by
  refine .bind .get fun t => ?_
  rcases t.frames with _ | ⟨f, rest⟩
  · exact .fail _
  · refine .bind (.modify fun _ => rfl) fun _ => ?_
    dsimp only
    generalize (if hasValue = true then f.stack.head? else none) = v
    split
    · exact .throw _
    · split
      · split
        · exact .throw _
        · exact strict_deliver v rest
      · exact strict_deliver v rest

theorem Built.strict (he : e.IsStrict) {z : Realm} {r : Reach} {known : Known} {x : Exec α}
    (h : Built e z r known x) : x.Strict := by
  induction h with
  | pure a => exact .pure a
  | throw trap => exact .throw trap
  | bind _ _ ihx ihf => exact .bind ihx ihf
  | get => exact .get
  | modify h => exact .modify fun t => (h t).fatalReported
  | lift h => exact .lift h.isQuiet
  | enroll n hc =>
    refine .bind (.lift (Prog.isMild_act fun m => Machine.mild_alloc _ _ m).isQuiet) fun o => ?_
    exact .lift (Prog.isQuiet_act fun m => (Machine.spares_enroll n o m).exitStatus)
  | keep c text _ ih =>
    refine .bind (.lift (Prog.isMild_act fun m => Machine.mild_alloc _ _ m).isQuiet) fun o => ?_
    refine .bind (ih o) fun _ => ?_
    exact .lift (Prog.isQuiet_act fun m => (Machine.spares_keep text o m).exitStatus)
  | report index code =>
    refine .bind .get fun t => ?_
    exact .lift (Prog.isQuiet_act fun m => (Machine.spares_setError t.id index code m).exitStatus)
  | looking h => exact .lift (Prog.isQuiet_act (Machine.keepsExit_resolve _))
  | resolving h _ ihf => exact .bind (.resolve _) ihf
  | locked _ ih => exact .locked ih
  | setUp hc hz => exact he.setUp _
  | invoke arguments ho hz => exact strict_invokeMethod he _ _ arguments
  | recover _ ok caught passed ihx ihok ihcaught =>
    intro t i s hs
    refine meets_bind.2 (meets_attempt.2 ((ihx t i s hs).mono fun r t1 s1 h => ?_))
    cases r with
    | ok a => exact (ihok a t1 i s1 h.clean).mono fun _ _ _ h' => h.after h'
    | error trap =>
      rw [after_ok]
      cases ht : trap.isCatchable with
      | true =>
        refine (ihcaught trap ht t1 i s1 (h.clean_of_isCatchable ht)).mono fun _ _ _ h' => ?_
        exact h.after h'
      | false =>
        obtain ⟨g, hg, hf⟩ := passed trap ht
        rw [hf, meets_bind, meets_modify, after_ok, meets_throw]
        exact h.error.calm (.refl _ _) (hg t1).fatalReported
  | frame action ha => exact .inFrame action
  | enter arguments ho hz => exact strict_enterMethod he _ _ arguments
  | leave hasValue => exact strict_returnFrom hasValue

theorem Storing.strict (he : e.IsStrict) {r : Reach} {x : Exec α} (h : Storing e r x) :
    x.Strict := by
  induction h with
  | built h => exact h.strict he
  | bind _ _ ihx ihf => exact .bind ihx ihf
  | store f v => exact .locked (.lift (Prog.isQuiet_update fun _ => .of_eq rfl))

theorem Reporting.strict (he : e.IsStrict) {x : Exec α} (h : Reporting e x) : x.Strict := by
  induction h with
  | built h => exact h.strict he
  | bind _ _ ihx ihf => exact .bind ihx ihf
  | forget => exact .modify fun _ => rfl
  | blame o => exact .modify fun _ => rfl

section SetUp

theorem strict_setUpAll (he : e.IsStrict) (cs : List Class) : (setUpAll e cs).Strict := by
  induction cs with
  | nil => exact .pure ()
  | cons c rest ih => exact .bind (he.setUp c) fun _ => ih

theorem strict_runSetup (he : e.IsStrict) (c : Class) : (runSetup e c).Strict := by
  refine .bind ((Storing.seed c.fields).strict he) fun _ => .bind (strict_setUpAll he _) fun _ => ?_
  split
  · exact .pure ()
  · refine .bind (.lift (Prog.isQuiet_pass rfl)) fun _ => ?_
    exact .bind (strict_invokeMethod he c _ []) fun _ => .pure ()

theorem strict_setUpOnce (he : e.IsStrict) (c : Class) : (setUpOnce e c).Strict := by
  refine .bind (.lift (Prog.isQuiet_pass rfl)) fun _ => ?_
  refine .bind (.lift (Prog.isQuiet_update fun _ => .of_eq rfl)) fun _ => ?_
  intro t i s hs
  refine meets_bind.2 (meets_attempt.2 ((strict_runSetup he c t i s hs).mono fun r t1 s1 h => ?_))
  have finish (s2 : Scene) (hc : s1.Calm i s2) :
      (do
        update (·.setInitState c.name .initialized)
        note (.initialized c.name)
        ofTrap r : Exec Unit).Meets (.orderly i) t1 (Outcome i t s) s2 := by
    refine lift_bind_quiet (Prog.isQuiet_update fun _ => .of_eq rfl) fun _ s3 hc3 => ?_
    refine lift_bind_quiet (Prog.isQuiet_pass rfl) fun _ s4 hc4 => meets_ofTrap.2 ?_
    exact h.calm ((hc.trans hc3).trans hc4) rfl
  rw [after_ok]
  dsimp only
  split
  · exact lift_bind_quiet (Prog.isQuiet_pass rfl) fun _ s2 hc => finish s2 hc
  · exact finish s1 (.refl i s1)

theorem strict_setUp (he : e.IsStrict) (c : Class) : (setUp e c).Strict := by
  refine .ending (.bind (.lift (Prog.isQuiet_read _)) fun state => ?_) (Prog.isQuiet_pass rfl)
  split
  · refine .locked (.bind (.lift (Prog.isQuiet_read _)) fun state => ?_)
    split
    · exact strict_setUpOnce he c
    · exact .pure ()
  · exact .pure ()

end SetUp

section Step

theorem strict_warn (m : Method) (steps : Nat) : (fetch.warn m steps).Strict := by
  refine .bind (.lift (Prog.isQuiet_read _)) fun every => ?_
  split
  · exact .bind .get fun t => .lift (Prog.isQuiet_pass rfl)
  · exact .pure ()

theorem strict_fetch : fetch.Strict := by
  refine .bind .get fun t => ?_
  split
  · exact .fail _
  · split
    · exact .bind (.modify fun _ => rfl) fun _ => .throw _
    · split
      · exact .fail _
      · split
        · exact .fail _
        · exact .bind (.modify fun _ => rfl) fun _ => .bind (strict_warn _ _) fun _ => .pure _

theorem strict_step (he : e.IsStrict) : (step e).Strict := by
  refine .bind strict_fetch fun ⟨m, pc, i⟩ => .bind (.pass rfl fun _ h => nomatch h) fun _ => ?_
  exact (Storing.execute i).strict he

theorem strict_dispatch (he : e.IsStrict) (o : ObjectId) : (dispatch e o).Strict := by
  refine .bind .get fun t => ?_
  split
  · exact .fail _
  · split
    · exact .modify fun _ => rfl
    · have hc : Built e .every .host [] (classOf o) := .classOf o
      refine .bind (hc.strict he) fun c => ?_
      have hh (handlers : List Handler) : Built e .every .host [] (findHandler c handlers) :=
        .findHandler c handlers
      refine .bind ((hh _).strict he) fun found => ?_
      cases found with
      | some target => exact .bind (.pass rfl fun _ h => nomatch h) fun _ => .modify fun _ => rfl
      | none =>
        refine .bind (.modify fun _ => rfl) fun _ => ?_
        split
        · exact .bind (.modify fun _ => rfl) fun _ => (Reporting.uncaught o).strict he
        · exact .modify fun _ => rfl

theorem neverThrows_dispatch (e : Engine) (o : ObjectId) : NeverThrows (dispatch e o) := by
  refine .bind .get fun t => ?_
  split
  · exact .fail _
  · split
    · exact .changed _
    · refine .bind (.classOf o) fun c => .bind (.findHandler c _) fun found => ?_
      cases found with
      | some target => exact .bind (.lift _) fun _ => .changed _
      | none =>
        refine .bind (.changed _) fun _ => ?_
        split
        · exact .bind (.changed _) fun _ => .uncaught e o
        · exact .changed _

end Step

section Ends

variable {i limit : Nat} {t t1 t2 : Thread} {s s1 s2 : Scene} {r : Except Trap Unit}

theorem Outcome.ended {r1 : Except Trap α} (h : Outcome i t s r1 t1 s1)
    (h' : Ended limit i t1 s1 r t2 s2) : Ended limit i t s r t2 s2 where
  due := h'.due
  uncatchable := h'.uncatchable
  exitStatus := h.exitStatus.trans h'.exitStatus
  nested hl := ⟨(h'.nested hl).1.trans h.reported, (h'.nested hl).2.trans h.dumps⟩
  outermost hl ht := h.dumps ▸ h'.outermost hl (h.reported.trans ht)

theorem exitAllFrames_calm :
    exitAllFrames.Meets (.orderly i) t
      (fun r t' s' => r = .ok () ∧ t' = { t with frames := [] } ∧ s.Calm i s') s := by
  unfold exitAllFrames
  rw [meets_bind, meets_get, after_ok]
  exact lift_bind_quiet (Prog.isQuiet_pass rfl) fun _ s' hc => meets_set.2 ⟨rfl, rfl, hc⟩

theorem exit_recorded (code : Int32) :
    (lift (.exit code)).Meets (.orderly i) t
      (fun r t' s' => r = .ok () ∧ t' = t ∧ s.Calm i s' ∧ s'.machine.exitStatus.isSome = true) s := by
  refine meets_lift.2 (Prog.meets_bind.2 ?_)
  intro s1 hr
  have h1 := (Scene.Calm.of_own hr.1 hr.2).trans
    (Scene.calm_become (Machine.spares_recordExit code s1.machine).exitStatus)
  have hsome : (s1.machine.recordExit code).exitStatus.isSome = true := by
    unfold Machine.recordExit
    split
    · rfl
    · rename_i first hf
      split
      · rw [hf]
        rfl
      · exact congrArg Option.isSome hf
  obtain ⟨first, hfirst⟩ := Option.isSome_iff_exists.1 hsome
  refine ⟨⟨fun _ _ => rfl, (Machine.spares_recordExit code s1.machine).exitStatus, .inl rfl⟩, ?_⟩
  have hq : (do
      Prog.turn
      Prog.tellAll (← Prog.read (·.threadIds)) : Prog Unit).IsQuiet :=
    (Prog.isMild_bind Prog.isMild_turn fun _ =>
      Prog.isMild_bind (Prog.isMild_read _) fun ids => Prog.isMild_tellAll ids).isQuiet
  refine hq.meets fun _ s2 hc => ⟨rfl, rfl, h1.trans hc, ?_⟩
  rw [hc.exitStatus first hfirst]
  rfl

theorem report_due (x : Sign) (hx : ∀ trap, x ≠ .trapped trap) (trap : Trap)
    (hd : (s.pass i x).Doomed i trap) : s.Doomed i trap := by
  rw [Scene.Doomed, Scene.own_pass] at hd
  exact ⟨hd.1, (List.mem_cons.1 hd.2).resolve_left fun h => hx trap h.symm⟩

theorem reportFatal_again (fault : Fault) (ht : t.fatalReported = true) :
    (reportFatal fault).Meets (.orderly i) t (fun r t' s' => r = .ok () ∧ t' = t ∧ s' = s) s := by
  unfold reportFatal
  rw [meets_bind, meets_get, after_ok, if_pos ht]
  exact ⟨rfl, rfl, rfl⟩

theorem reportFatal_first (fault : Fault) (ht : t.fatalReported = false) :
    (reportFatal fault).Meets (.orderly i) t (fun r t' s' => r = .ok () ∧
      (∀ trap, s'.Doomed i trap → s.Doomed i trap) ∧ s.machine.KeepsExit s'.machine ∧
      t'.frames = [] ∧ t'.fatalReported = true ∧ s'.dumps i = s.dumps i + 1 ∧
      s'.machine.exitStatus.isSome = true) s := by
  unfold reportFatal
  rw [meets_bind, meets_get, after_ok, ht, if_neg Bool.false_ne_true]
  refine meets_bind.2 (pass_meets (fun _ _ _ => rfl) fun s1 h1 => ?_)
  have hdue := report_due (s := s1) (i := i) (.noted (.fatal t.name fault)) fun _ h => nomatch h
  have hdumps : (s1.pass i (.noted (.fatal t.name fault))).dumps i = s.dumps i + 1 := by
    rw [Scene.dumps, Scene.own_pass, List.countP_cons_of_pos rfl, ← h1.dumps, Scene.dumps]
  have hkeep := h1.exitStatus.trans (Scene.keepsExit_pass i (.noted (.fatal t.name fault)) s1)
  generalize s1.pass i (.noted (.fatal t.name fault)) = s2 at hdue hdumps hkeep
  rw [after_ok, meets_bind, meets_set, after_ok]
  refine lift_bind_quiet (Prog.isQuiet_update fun m => ?_) fun _ s3 h3 => ?_
  · split <;> exact .of_eq rfl
  · refine meets_bind.2 (exitAllFrames_calm.mono fun r t4 s4 h4 => ?_)
    obtain ⟨rfl, rfl, h4⟩ := h4
    rw [after_ok]
    refine (exit_recorded 1).mono fun r t5 s5 h5 => ?_
    obtain ⟨rfl, rfl, h5, hsome⟩ := h5
    have hc := (h3.trans h4).trans h5
    exact ⟨rfl, fun trap hd => h1.doomed trap (hdue trap (hc.doomed trap hd)),
      hkeep.trans hc.exitStatus, rfl, rfl, hc.dumps.trans hdumps, hsome⟩

theorem abort_ended {trap : Trap} (ht : ∀ o, trap ≠ .throw o)
    (hs : ∀ trap', s.Doomed i trap' → trap = trap') :
    (abort trap limit).Meets (.orderly i) t
      (fun r t' s' => r ≠ .ok () ∧ Ended limit i t s r t' s') s := by
  have fatal (fault : Fault) (hs : ∀ trap', s.Doomed i trap' → .fatal fault = trap') :
      (abort.abortFatal limit fault).Meets (.orderly i) t
        (fun r t' s' => r ≠ .ok () ∧ Ended limit i t s r t' s') s := by
    have uncatchable (trap : Trap) (h : (.error (.fatal fault) : Except Trap Unit) = .error trap) :
        trap.isCatchable = false := by
      cases h
      rfl
    unfold abort.abortFatal
    rw [meets_bind, meets_modify, after_ok]
    let traced : Thread := { t with fatalTrace := some (t.fatalTrace.getD t.trace) }
    split
    · rename_i hl
      rw [meets_bind]
      rcases Bool.eq_false_or_eq_true t.fatalReported with hr | hr
      · refine (reportFatal_again (t := traced) fault hr).mono fun r t' s' h => ?_
        obtain ⟨rfl, rfl, rfl⟩ := h
        exact ⟨nofun, fun trap' hd => by rw [hs trap' hd], uncatchable, fun _ h => h, absurd hl,
          fun _ ht => nomatch hr.symm.trans ht⟩
      · refine (reportFatal_first (t := traced) fault hr).mono fun r t' s' h => ?_
        obtain ⟨rfl, hdue, hkeep, hf, hr', hd⟩ := h
        exact ⟨nofun, fun trap' hd => by rw [hs trap' (hdue trap' hd)], uncatchable, hkeep,
          absurd hl, fun _ _ => ⟨hf, hr', hd⟩⟩
    · rename_i hl
      exact ⟨nofun, fun trap' hd => by rw [hs trap' hd], uncatchable, fun _ h => h,
        fun _ => ⟨rfl, rfl⟩, fun h => absurd h hl⟩
  cases trap with
  | throw o => exact absurd rfl (ht o)
  | fatal fault => exact fatal fault hs
  | raise cause =>
    refine fatal _ fun trap' hd => ?_
    cases hs trap' hd
    cases hd.1
  | exit =>
    have uncatchable (trap : Trap) (h : (.error .exit : Except Trap Unit) = .error trap) :
        trap.isCatchable = false := by
      cases h
      rfl
    unfold abort
    dsimp only
    split
    · rename_i hl
      refine meets_bind.2 (exitAllFrames_calm.mono fun r t' s' h => ?_)
      obtain ⟨rfl, rfl, hc⟩ := h
      exact ⟨nofun, fun trap' hd => by rw [hs trap' (hc.doomed trap' hd)], uncatchable,
        hc.exitStatus, absurd hl, fun _ ht => ⟨rfl, ht, hc.dumps⟩⟩
    · rename_i hl
      exact ⟨nofun, fun trap' hd => by rw [hs trap' hd], uncatchable, fun _ h => h,
        fun _ => ⟨rfl, rfl⟩, fun h => absurd h hl⟩

theorem handleTrap_ended (he : e.IsStrict) (trap : Trap)
    (hs : ∀ trap', s.Doomed i trap' → trap = trap') :
    (handleTrap e trap limit).Meets (.orderly i) t (fun r t' s' => match r with
      | .ok () => Outcome i t s (.ok ()) t' s'
      | .error _ => Ended limit i t s r t' s') s := by
  have aborted {trap : Trap} {t1 : Thread} {s1 : Scene}
      (h : Outcome i t s (.error trap : Except Trap Unit) t1 s1) (ht : ∀ o, trap ≠ .throw o) :
      (abort trap limit).Meets (.orderly i) t1 (fun r t' s' => match r with
        | .ok () => Outcome i t s (.ok ()) t' s'
        | .error _ => Ended limit i t s r t' s') s1 := by
    have hdue (trap' : Trap) (hd : s1.Doomed i trap') : trap = trap' := by
      cases h.due trap' hd
      rfl
    refine (abort_ended ht hdue).mono fun r t2 s2 h2 => ?_
    cases r with
    | ok _ => exact absurd rfl h2.1
    | error trap => exact h.ended h2.2
  cases hc : trap.isCatchable with
  | false =>
    have due : Outcome i t s (.error trap : Except Trap Unit) t s :=
      ⟨fun trap' hd => by rw [hs trap' hd], rfl, fun _ h => h, rfl⟩
    cases trap with
    | throw o => cases hc
    | raise cause => cases hc
    | fatal fault => exact aborted due nofun
    | exit => exact aborted due nofun
  | true =>
    have clean : s.Clean i := by
      intro trap' hd
      rw [hs trap' hd, hd.1] at hc
      cases hc
    have hb : Built e .every .host [] (handleTrap.thrown e trap) := .thrown trap
    unfold handleTrap
    rw [meets_bind, meets_attempt]
    refine ((hb.strict he t i s clean).and_free (NeverThrows.thrown e trap t i s)).mono
      fun r t1 s1 h1 => ?_
    cases r with
    | error other => exact aborted h1.1.error fun o ho => h1.2 o (by rw [ho])
    | ok o =>
      rw [after_ok, meets_bind, meets_attempt]
      refine ((strict_dispatch he o t1 i s1 h1.1.clean).and_free
        (neverThrows_dispatch e o t1 i s1)).mono fun r t2 s2 h2 => ?_
      cases r with
      | error other => exact aborted (h1.1.after h2.1) fun o ho => h2.2 o (by rw [ho])
      | ok _ => exact h1.1.after h2.1

theorem run_ended (he : e.IsStrict) (limit : Nat) (t : Thread) (hs : s.Clean i) :
    (run e limit).Meets (.orderly i) t (Ended limit i t s) s := by
  have again {t1 : Thread} {s1 : Scene} (h : Outcome i t s (.ok ()) t1 s1) :
      (e.run limit).Meets (.orderly i) t1 (Ended limit i t s) s1 :=
    (he.run limit t1 i s1 h.clean).mono fun _ _ _ h' => h.ended h'
  unfold run
  rw [meets_bind, meets_get, after_ok]
  split
  · rename_i hw
    refine ⟨fun trap hd => absurd hd (hs trap), (fun _ h => by cases h), fun _ h => h, fun _ => ⟨rfl, rfl⟩, ?_⟩
    rintro rfl hr
    refine ⟨?_, hr, rfl⟩
    rw [Thread.isWithin_iff, Thread.depth] at hw
    exact List.eq_nil_of_length_eq_zero (Nat.le_zero.1 hw)
  · refine lift_bind_quiet Prog.isQuiet_turn fun _ s1 h1 => ?_
    rw [shouldTerminate, bind_assoc, meets_bind, meets_get, after_ok]
    refine lift_bind_quiet (Prog.isQuiet_read _) fun stop s2 h2 => ?_
    have hc := h1.trans h2
    have clean := hs.of_calm hc
    cases stop with
    | true =>
      rw [if_pos rfl]
      have ht : ∀ o, Trap.exit ≠ .throw o := fun _ h => by cases h
      refine (abort_ended ht fun trap hd => absurd hd (clean trap)).mono fun r t3 s3 h3 => ?_
      exact (Outcome.of_calm hs hc (.ok ()) rfl).ended h3.2
    | false =>
      rw [if_neg Bool.false_ne_true, meets_bind, meets_attempt]
      refine (strict_step he t i s2 clean).mono fun r t3 s3 h3 => ?_
      have h := (Outcome.of_calm hs hc (.ok ()) rfl).after h3
      rw [after_ok]
      cases r with
      | ok _ => exact again h
      | error trap =>
        refine meets_bind.2 (pass_meets (fun _ _ _ => rfl) fun s4 h4 => ?_)
        have h5 := (h.calm h4 rfl).trapped
        rw [after_ok, meets_bind]
        have hdue (trap' : Trap) (hd : (s4.pass i (.trapped trap)).Doomed i trap') : trap = trap' := by
          cases h5.due trap' hd
          rfl
        refine (handleTrap_ended he trap hdue).mono fun r t6 s6 h6 => ?_
        cases r with
        | ok _ => exact again (h5.after h6)
        | error other => exact h5.ended h6

end Ends

end Exec

theorem Engine.isStrict_bounded (bound : Nat) : (bounded bound).IsStrict := by
  induction bound with
  | zero =>
    constructor
    · exact fun _ _ _ _ _ => trivial
    · exact fun _ _ _ _ _ _ => trivial
    · exact fun _ _ _ _ _ => trivial
  | succ bound ih =>
    constructor
    · exact fun c => Exec.strict_setUp ih c
    · intro m arguments
      have hb : Exec.Built (bounded bound) .every .host [] (Exec.callNative (bounded bound) m arguments) :=
        .callNative m arguments
      exact hb.strict ih
    · exact fun limit t i s hs => Exec.run_ended ih limit t hs

namespace Exec

structure Stopped (i dumps : Nat) (r : Except Trap Unit) (t : Thread) (s : Scene) : Prop where
  due : ∀ trap, s.Doomed i trap → r = .error trap
  frames : t.frames = []
  account : t.fatalReported = false ∧ s.dumps i = dumps ∨
    t.fatalReported = true ∧ s.dumps i = dumps + 1 ∧ s.machine.exitStatus.isSome = true ∧
      ∃ fault, r = .error (.fatal fault)

section Entry

variable {e : Engine} {i n : Nat} {t : Thread} {s : Scene}

theorem Accounted.stopped {r : Except Trap Unit} (h : Accounted i n r t s)
    (hd : ∀ trap, s.Doomed i trap → r = .error trap) : Stopped i n r t s := by
  refine ⟨hd, h.1, ?_⟩
  have := h.2
  split at this
  · exact .inr ⟨this.1, this.2.1, this.2.2, _, rfl⟩
  · exact .inl this

theorem entered_stopped (he : e.IsStrict) (hb : e.Balanced) (p : EntryPoint)
    (arguments : List String) (hs : s.Clean i) (hf : t.frames = []) (hr : t.fatalReported = false) :
    (do
      enterEntry e p arguments
      e.run 0 : Exec Unit).Meets (.orderly i) t (Stopped i (s.dumps i)) s := by
  have hbuilt : Built e .every .call [] (enterEntry e p arguments) := .enterEntry p arguments
  refine meets_bind.2 (((hbuilt.strict he t i s hs).and_free (hbuilt.effect hb t i s)).mono
    fun r t1 s1 h1 => ?_)
  have hr1 := h1.1.reported.trans hr
  cases r with
  | ok _ =>
    refine (he.run 0 t1 i s1 h1.1.clean).mono fun r t2 s2 h2 => ?_
    have := (h2.outermost rfl hr1).stopped h2.due
    rwa [h1.1.dumps] at this
  | error trap =>
    refine ⟨h1.1.due, ?_, .inl ⟨hr1, h1.1.dumps⟩⟩
    have hc : Frames.Called t.frames (.error trap : Except Trap Unit) t1.frames := h1.2.2
    rw [hf] at hc
    exact hc.error_nil

theorem settle_stopped (he : e.IsStrict) (hb : e.Balanced) {r : Except Trap Unit}
    (h : Stopped i n r t s) : (settle e r).Meets (.orderly i) t (Stopped i n) s := by
  have same {trap : Trap} (h : Stopped i n (.error trap) t s) :
      (throw trap : Exec Unit).Meets (.orderly i) t (Stopped i n) s := h
  rcases r with trap | ⟨⟩
  · cases hc : trap.isCatchable with
    | false =>
      cases trap with
      | throw o => cases hc
      | raise cause => cases hc
      | fatal fault => exact same h
      | exit => exact same h
    | true =>
      have clean : s.Clean i := by
        intro trap' hd
        cases h.due trap' hd
        rw [hd.1] at hc
        cases hc
      have hbuilt : Reporting e (settle e (.error trap)) := .settle _
      refine ((hbuilt.strict he t i s clean).and_free (hbuilt.frames hb t i s)).mono
        fun r t1 s1 h1 => ?_
      refine ⟨h1.1.due, h1.2.trans h.frames, .inl ?_⟩
      rcases h.account with ⟨hr, hd⟩ | ⟨-, -, -, fault, hf⟩
      · exact ⟨h1.1.reported.trans hr, h1.1.dumps.trans hd⟩
      · cases hf
        cases hc
  · exact h

def exitResult : Option Int32 → Except RunError Unit
  | none => .ok ()
  | some code => if code = 0 then .ok () else .error (.exit code)

structure Final (i n : Nat) (r : Except Trap (Except RunError Unit)) (t : Thread) (s : Scene) :
    Prop where
  frames : t.frames = []
  fatal : ∀ fault, s.Doomed i (.fatal fault) → r = .ok (.error (.fatal fault))
  exit : s.Doomed i .exit → r = .ok (exitResult s.machine.exitStatus)
  dumped : ∀ fault, r = .ok (.error (.fatal fault)) →
    s.dumps i = n + 1 ∧ s.machine.exitStatus.isSome = true
  spared : (∀ fault, r ≠ .ok (.error (.fatal fault))) → s.dumps i = n

theorem Stopped.reported {r : Except Trap Unit} (h : Stopped i n r t s) (fault : Fault) :
    (reportFatal fault).Meets (.orderly i) t (fun r' t' s' => r' = .ok () ∧ t'.frames = [] ∧
      (∀ trap, s'.Doomed i trap → r = .error trap) ∧ s'.dumps i = n + 1 ∧
      s'.machine.exitStatus.isSome = true) s := by
  rcases h.account with ⟨hr, hd⟩ | ⟨hr, hd, hsome, -⟩
  · refine (reportFatal_first fault hr).mono fun r' t' s' h' => ?_
    obtain ⟨rfl, hdue, -, hf, -, hd', hsome⟩ := h'
    exact ⟨rfl, hf, fun trap hd => h.due trap (hdue trap hd), hd ▸ hd', hsome⟩
  · refine (reportFatal_again fault hr).mono fun r' t' s' h' => ?_
    obtain ⟨rfl, rfl, rfl⟩ := h'
    exact ⟨rfl, h.frames, h.due, hd, hsome⟩

theorem Stopped.spared {r : Except Trap Unit} (h : Stopped i n r t s)
    (hr : ∀ fault, r ≠ .error (.fatal fault)) : s.dumps i = n := by
  rcases h.account with ⟨-, hd⟩ | ⟨-, -, -, fault, hf⟩
  · exact hd
  · exact absurd hf (hr fault)

theorem final_fatal {fault : Fault} {r : Except Trap Unit} {t' : Thread} {s' : Scene}
    (hf : t'.frames = []) (hdue : ∀ trap, s'.Doomed i trap → r = .error trap)
    (hr : ∀ trap, trap.isCatchable = false → r = .error trap → trap = .fatal fault)
    (hd : s'.dumps i = n + 1) (hsome : s'.machine.exitStatus.isSome = true) :
    Final i n (.ok (.error (.fatal fault))) t' s' where
  frames := hf
  fatal fault' hd := by
    cases hr _ hd.1 (hdue _ hd)
    rfl
  exit hd := nomatch hr _ hd.1 (hdue _ hd)
  dumped _ _ := ⟨hd, hsome⟩
  spared h := absurd rfl (h fault)

theorem Stopped.calm {r : Except Trap Unit} {s' : Scene} (h : Stopped i n r t s)
    (hc : s.Calm i s') : Stopped i n r t s' := by
  refine ⟨fun trap hd => h.due trap (hc.doomed trap hd), h.frames, ?_⟩
  rcases h.account with ⟨hr, hd⟩ | ⟨hr, hd, hsome, hf⟩
  · exact .inl ⟨hr, hc.dumps.trans hd⟩
  · obtain ⟨code, hcode⟩ := Option.isSome_iff_exists.1 hsome
    exact .inr ⟨hr, hc.dumps.trans hd, Option.isSome_iff_exists.2 ⟨code, hc.exitStatus code hcode⟩, hf⟩

theorem final_regular {r : Except Trap (Except RunError Unit)} (h : Stopped i n (.ok ()) t s)
    (hr : ∀ fault, r ≠ .ok (.error (.fatal fault))) : Final i n r t s where
  frames := h.frames
  fatal _ hd := nomatch h.due _ hd
  exit hd := nomatch h.due _ hd
  dumped fault hf := absurd hf (hr fault)
  spared _ := h.spared fun _ h => nomatch h

theorem exitResult_ne_fatal (status : Option Int32) (fault : Fault) :
    exitResult status ≠ .error (.fatal fault) := by
  unfold exitResult
  split
  · exact nofun
  · split <;> exact nofun

theorem final_exit (h : Stopped i n (.error .exit) t s) :
    Final i n (.ok (exitResult s.machine.exitStatus)) t s where
  frames := h.frames
  fatal _ hd := nomatch h.due _ hd
  exit _ := rfl
  dumped fault hf := absurd (Except.ok.inj hf) (exitResult_ne_fatal _ fault)
  spared _ := h.spared fun _ h => nomatch h

theorem ended_unraised {trap : Trap} (ht : trap.isCatchable = true)
    (h : Stopped i n (.error trap) t s) :
    (do
      let shown ← read fun m => m.shownTrap trap
      reportFatal (.couldNotRaiseTrap shown)
      pure (.error (.fatal (.couldNotRaiseTrap shown))) : Exec (Except RunError Unit)).Meets
        (.orderly i) t (Final i n) s := by
  refine read_bind fun s1 h1 => meets_bind.2 (((h.calm h1).reported _).mono fun r t' s' h' => ?_)
  obtain ⟨rfl, hf, hdue, hd, hsome⟩ := h'
  refine final_fatal hf hdue (fun trap' hc he => ?_) hd hsome
  cases he
  rw [hc] at ht
  cases ht

theorem ended_final (r : Except Trap Unit) (h : Stopped i n r t s) :
    (ended r).Meets (.orderly i) t (Final i n) s := by
  rcases r with trap | ⟨⟩
  · cases trap with
    | fatal fault =>
      refine meets_bind.2 ((h.reported fault).mono fun r t' s' h' => ?_)
      obtain ⟨rfl, hf, hdue, hd, hsome⟩ := h'
      exact final_fatal hf hdue (fun trap _ h => by cases h; rfl) hd hsome
    | exit =>
      refine meets_bind.2 (exitAllFrames_calm.mono fun r t1 s1 h1 => ?_)
      obtain ⟨rfl, rfl, h1⟩ := h1
      rw [after_ok]
      refine read_bind fun s2 h2 => ?_
      have h3 : Stopped i n (.error .exit) { t with frames := [] } s2 :=
        ⟨(h.calm (h1.trans h2)).due, rfl, (h.calm (h1.trans h2)).account⟩
      have hfinal := final_exit h3
      generalize s2.machine.exitStatus = status at hfinal
      cases status with
      | none => exact hfinal
      | some code => exact hfinal
    | throw o => exact ended_unraised rfl h
    | raise cause => exact ended_unraised rfl h
  · refine meets_bind.2 (meets_get.2 ?_)
    rw [after_ok]
    split
    · exact final_regular h fun _ h => nomatch h
    · refine meets_bind.2 (meets_bind.2 (read_bind fun s' hc => ?_))
      split
      · exact final_regular (h.calm hc) fun _ h => nomatch h
      · exact final_regular (h.calm hc) fun _ h => nomatch h

end Entry

end Exec

namespace Engine

open Exec

theorem fatal_and_exit_escape (bound : Nat) (m : Machine) :
    (∀ limit t, ((bounded bound).run limit).Meets (.orderly t.id) t (fun r _ s =>
      (∀ trap, r = .error trap → trap.isCatchable = false) ∧
      ∀ trap, s.Doomed t.id trap → r = .error trap) ⟨m, []⟩) ∧
    (∀ i name p arguments, (runEntry (bounded bound) p arguments).Meets (.orderly i)
      (.start i name) (Final i 0) ⟨m, []⟩) ∧
    ∀ i j s s', i ≠ j → (Contract.orderly i).guarantee s s' → (Contract.orderly j).rely s s' := by
  have clean (i : Nat) : (⟨m, []⟩ : Scene).Clean i := fun _ hd => nomatch hd.2
  refine ⟨fun limit t => ?_, fun i name p arguments => ?_, fun _ _ _ _ hij hg =>
    Contract.orderly_compatible hij hg⟩
  · refine ((isStrict_bounded bound).run limit t t.id _ (clean t.id)).mono fun r t' s h => ?_
    exact ⟨h.uncatchable, h.due⟩
  · have he := isStrict_bounded bound
    have hb := balanced_bounded bound
    refine meets_bind.2 (meets_attempt.2 ?_)
    refine (entered_stopped he hb p arguments (clean i) rfl rfl).mono fun r t1 s1 h1 => ?_
    rw [after_ok, meets_bind, meets_attempt]
    exact (settle_stopped he hb h1).mono fun r t2 s2 h2 => ended_final r h2

end Engine

end BytecodeMachine
