import BytecodeMachine.Proofs.Completion
import BytecodeMachine.Proofs.EntryRuns.Escapees
import BytecodeMachine.Proofs.Escape
import BytecodeMachine.Proofs.Loading.CoreClasses

namespace BytecodeMachine

variable {i : Nat} {t : Thread} {s : Scene} {libraries : List Library}

inductive Machine.Reports (m : Machine) :
    Option ObjectId → Except Trap (Option ObjectId) → Except RunError Unit → Prop
  | completed : Reports m none (.ok none) (.ok ())
  | stale {o : ObjectId} {c : ClassName} (hc : m.IsOf o c) :
      Reports m (some o) (.ok none) (.error (.uncaught c))
  | escaped (before : Option ObjectId) {o : ObjectId} {c : ClassName} (hc : m.IsOf o c) :
      Reports m before (.ok (some o)) (.error (.uncaught c))
  | fatal (before : Option ObjectId) (fault : Fault) :
      Reports m before (.error (.fatal fault)) (.error (.fatal fault))
  | exit (before : Option ObjectId) (status : Option Int32) :
      Reports m before (.error .exit) (Exec.exitResult status)
  | unraised (before : Option ObjectId) {trap : Trap} (h : trap.isCatchable = true)
      (shown : String) : Reports m before (.error trap) (.error (.fatal (.couldNotRaiseTrap shown)))

inductive Machine.Reported (m : Machine) : Option ObjectId →
    List (Except Trap (Option ObjectId) × Except RunError Unit) → Option ObjectId → Prop
  | nil (before : Option ObjectId) : Reported m before [] before
  | cons {before after : Option ObjectId} {how : Except Trap (Option ObjectId)}
      {result : Except RunError Unit}
      {later : List (Except Trap (Option ObjectId) × Except RunError Unit)}
      (h : m.Reports before how result)
      (hl : Reported m ((Exec.escapee how).or before) later after) :
      Reported m before ((how, result) :: later) after

theorem Machine.Reports.carries {m m' : Machine} {before : Option ObjectId}
    {how : Except Trap (Option ObjectId)} {result : Except RunError Unit}
    (h : m.Reports before how result) (hm : m.Carries m') : m'.Reports before how result := by
  cases h with
  | completed => exact .completed
  | stale hc => exact .stale (hm.isOf _ _ hc)
  | escaped before hc => exact .escaped before (hm.isOf _ _ hc)
  | fatal before fault => exact .fatal before fault
  | exit before status => exact .exit before status
  | unraised before h shown => exact .unraised before h shown

namespace Exec

open Machine

theorem exitAllFrames_succeeds : exitAllFrames.Meets (.free i) t (fun r _ _ => r = .ok ()) s := by
  refine meets_bind.2 (meets_get.2 ?_)
  rw [after_ok]
  exact lift_bind_meets_free (fun _ _ => meets_set.2 rfl) _

theorem reportFatal_succeeds (fault : Fault) :
    (reportFatal fault).Meets (.free i) t (fun r _ _ => r = .ok ()) s := by
  refine meets_bind.2 (meets_get.2 ?_)
  rw [after_ok]
  split
  · rfl
  · refine lift_bind_meets_free (fun _ s => meets_bind.2 (meets_set.2 ?_)) _
    rw [after_ok]
    refine lift_bind_meets_free (fun _ s => meets_bind.2 ?_) _
    refine exitAllFrames_succeeds.mono fun r t1 s1 h1 => ?_
    cases h1
    rw [after_ok]
    exact lift_meets_free (fun _ _ => rfl) _

theorem ended_error (before : Option ObjectId) (trap : Trap) :
    (ended (.error trap)).Meets (.free i) t (fun r _ _ => ∃ result, r = .ok result ∧
      ∀ m : Machine, m.Reports before (.error trap) result) s := by
  have fatal {fault : Fault} {t : Thread} {s : Scene}
      (h : ∀ m : Machine, m.Reports before (.error trap) (.error (.fatal fault))) :
      (do reportFatal fault; pure (.error (.fatal fault)) : Exec (Except RunError Unit)).Meets
        (.free i) t (fun r _ _ => ∃ result, r = .ok result ∧
          ∀ m : Machine, m.Reports before (.error trap) result) s := by
    refine meets_bind.2 ((reportFatal_succeeds fault).mono fun r t1 s1 h1 => ?_)
    cases h1
    exact ⟨_, rfl, h⟩
  cases trap with
  | fatal fault => exact fatal fun m => .fatal before fault
  | throw o => exact lift_bind_meets_free (fun shown _ => fatal fun m => .unraised before rfl shown) _
  | raise cause =>
    exact lift_bind_meets_free (fun shown _ => fatal fun m => .unraised before rfl shown) _
  | exit =>
    refine meets_bind.2 (exitAllFrames_succeeds.mono fun r t1 s1 h1 => ?_)
    cases h1
    rw [after_ok]
    refine lift_bind_meets_free (fun status s => ?_) _
    cases status with
    | none => exact ⟨_, rfl, fun m => .exit before none⟩
    | some code => exact ⟨_, rfl, fun m => .exit before (some code)⟩

theorem ended_reports {e : Engine} (hb : e.Balanced) (hw : e.Woven) {before : Option ObjectId}
    (how : Except Trap (Option ObjectId)) (hs : Over libraries i t s)
    (hu : t.uncaught = (escapee how).or before) (hp : s.machine.Knows t.uncaught) :
    (ended (how.map fun _ => ())).Meets (.along Carries i) t (fun r t' s' =>
      Onward libraries i t s none t' s' ∧
        ∃ result, r = .ok result ∧ s'.machine.Reports before how result) s := by
  rcases how with trap | left
  · refine (((Blameless.ended hb (.error trap)).onward hs (woven_ended hw _)).and_free
      (ended_error before trap)).mono fun r t' s' h => ⟨h.1, ?_⟩
    obtain ⟨result, hr, h⟩ := h.2
    exact ⟨result, hr, h s'.machine⟩
  · refine meets_bind.2 (meets_get.2 ?_)
    rw [after_ok]
    change t.uncaught = left.or before at hu
    cases ht : t.uncaught with
    | none =>
      obtain ⟨rfl, rfl⟩ := Option.or_eq_none_iff.1 (hu.symm.trans ht)
      exact ⟨.refl hs, _, rfl, .completed⟩
    | some o =>
      refine meets_bind.2 ((classOf_onward o hs).mono fun r t1 s1 h1 => ?_)
      obtain ⟨c, rfl⟩ := h1.2.2 (hp o ht)
      refine ⟨h1.1, _, rfl, ?_⟩
      have hc := h1.2.1 c rfl
      rcases Option.or_eq_some_iff.1 (hu.symm.trans ht) with rfl | ⟨rfl, rfl⟩
      · exact .escaped before hc
      · exact .stale hc

theorem followCall_reports (bound : Nat) (p : EntryPoint) (arguments : List String)
    (hs : Over libraries i t s) (hp : s.machine.Knows t.uncaught) :
    (followCall bound p arguments).Meets (.along Carries i) t (fun r t' s' =>
      ∃ how result, r = .ok (how, result) ∧ Onward libraries i t s (escapee how) t' s' ∧
        s'.machine.Reports t.uncaught how result) s := by
  refine meets_bind.2 (meets_attempt.2 ((followEntry_onward bound p arguments hs).mono
    fun how t1 s1 h1 => ?_))
  rw [after_ok]
  refine meets_bind.2 ((ended_reports (Engine.balanced_bounded bound) (Engine.woven_bounded bound)
    how h1.stays h1.uncaught (h1.knows hp)).mono fun r t2 s2 h2 => ?_)
  obtain ⟨next, result, rfl, hr⟩ := h2
  have h := h1.trans next
  rw [Option.none_or] at h
  exact ⟨how, result, rfl, h, hr⟩

-- By induction on the calls: what a call leaves on record, the next one begins with.
theorem followCalls_reported (bound : Nat) (calls : List (EntryPoint × List String))
    (hs : Over libraries i t s) (hp : s.machine.Knows t.uncaught) :
    (calls.mapM fun call => followCall bound call.1 call.2).Meets (.along Carries i) t
      (fun r t' s' => ∃ l, r = .ok l ∧ l.length = calls.length ∧ s.machine.Carries s'.machine ∧
        s'.machine.Reported t.uncaught l t'.uncaught) s := by
  induction calls generalizing t s with
  | nil => exact ⟨[], rfl, rfl, upkept_carries.refl _, .nil _⟩
  | cons call rest ih =>
    rw [List.mapM_cons]
    refine meets_bind.2 ((followCall_reports bound call.1 call.2 hs hp).mono fun r t1 s1 h1 => ?_)
    obtain ⟨how, result, rfl, h, hr⟩ := h1
    rw [after_ok]
    refine meets_bind.2 ((ih h.stays (h.knows hp)).mono fun r t2 s2 h2 => ?_)
    obtain ⟨l, rfl, hlen, hc, hl⟩ := h2
    refine ⟨(how, result) :: l, rfl, ?_, upkept_carries.trans h.carries hc,
      .cons (hr.carries hc) ?_⟩
    · rw [List.length_cons, List.length_cons, hlen]
    · rwa [← h.uncaught]

theorem map_followCalls (bound : Nat) (calls : List (EntryPoint × List String)) :
    (calls.mapM fun call => runEntry (.bounded bound) call.1 call.2) =
      List.map Prod.snd <$> calls.mapM fun call => followCall bound call.1 call.2 := by
  simp only [← map_followCall]
  induction calls with
  | nil => rfl
  | cons call rest ih =>
    simp only [List.mapM_cons, ih, map_bind, bind_map_left, map_pure, List.map_cons]

end Exec

namespace Engine

open Exec

theorem entry_results_name_last_escapee (bound : Nat) (calls : List (EntryPoint × List String))
    (t : Thread) (s : Scene) (hc : ClassTable.Closed s.machine.libraries s.machine.classes)
    (ho : s.machine.Knows t.uncaught) :
    (calls.mapM fun call => runEntry (bounded bound) call.1 call.2) =
      List.map Prod.snd <$> (calls.mapM fun call => followCall bound call.1 call.2) ∧
    (calls.mapM fun call => followCall bound call.1 call.2).Meets (.along Machine.Carries t.id) t
      (fun r t' s' => ∃ l, r = .ok l ∧ l.length = calls.length ∧
        s'.machine.Reported t.uncaught l t'.uncaught) s := by
  refine ⟨map_followCalls bound calls, ?_⟩
  refine (followCalls_reported bound calls ⟨rfl, rfl, hc⟩ ho).mono fun r t' s' h => ?_
  obtain ⟨l, hr, hlen, -, hl⟩ := h
  exact ⟨l, hr, hlen, hl⟩

section Thrower

open ClassTable CoreLibrary

def throwerName : ClassName := ⟨"Thrower"⟩

def failEntry : EntryPoint := ⟨throwerName, ⟨"fail"⟩, .void []⟩

def passEntry : EntryPoint := ⟨throwerName, ⟨"pass"⟩, .void []⟩

def failCode : Code := .plain 0 [.new throwerName, .throw]

def passCode : Code := .plain 0 [.returnVoid]

def throwerData : ClassData :=
  ⟨throwerName, some .throwable, [], .plain, none, [],
    [⟨⟨Flag.isStatic⟩, failEntry.method, failEntry.type, some failCode⟩,
      ⟨⟨Flag.isStatic⟩, passEntry.method, passEntry.type, some passCode⟩]⟩

def throwerLibrary : Library := .ofClasses "throwers" [throwerData] []

def throwerClass : Class := ClassTable.regular throwerName throwerData (some throwableRecord) []

def throwerTable : ClassTable :=
  [(.object, objectRecord), (.serializable, serializableRecord), (.throwable, throwableRecord),
    (throwerName, throwerClass)]

def entryFrame (p : EntryPoint) (code : Code) : Frame :=
  { Frame.blank with
    activation := some ⟨throwerClass, ⟨throwerName, p.method, p.type, ⟨Flag.isStatic⟩, some code⟩⟩ }

def entryThread (frames : List Frame) (uncaught : Option ObjectId) : Thread :=
  { Thread.start 1 "main" with frames := frames, uncaught := uncaught }

def throwerScene : Scene :=
  ⟨.create [throwerLibrary] .standard .standard .sound .sound (.ofVerbosity none), []⟩

def throwerMachine : Machine :=
  { throwerScene.machine with
    classes := throwerTable
    initStates := [(throwerName, .initialized), (.throwable, .initialized), (.object, .initialized),
      (.serializable, .initialized)] }

def thrownFrame : Frame := { entryFrame failEntry failCode with pc := 2, lastPc := 1, steps := 2 }

def throwerReport : String :=
  report ("Exception in thread \"" ++ "main" ++ "\" " ++ throwerName.toSource) [thrownFrame.describe]

def throwerLater : Machine :=
  { throwerMachine with
    heap := ⟨#[.instanceOf throwerClass]⟩
    allocated := 24
    stderr := ⟨false, #[] ++ (Text.bytes throwerReport).toArray⟩ }

theorem load_thrower : load throwerScene.machine.libraries [] throwerName [] =
    (.ok throwerClass, throwerTable) := by
  have hroot : load throwerScene.machine.libraries [.throwable, throwerName] .object [] =
      (.ok objectRecord, [(.object, objectRecord)]) :=
    load_of_links rfl (by decide) rfl loadLinks_nil rfl
  have hserializable : load throwerScene.machine.libraries [.throwable, throwerName] .serializable
      [(.object, objectRecord)] =
        (.ok serializableRecord, [(.object, objectRecord), (.serializable, serializableRecord)]) :=
    load_of_links rfl (by decide) rfl (loadLinks_cons (load_of_get? rfl) rfl loadLinks_nil) rfl
  have hthrowable : load throwerScene.machine.libraries [throwerName] .throwable [] =
      (.ok throwableRecord, [(.object, objectRecord), (.serializable, serializableRecord),
        (.throwable, throwableRecord)]) :=
    load_of_links rfl (by decide) rfl
      (loadLinks_cons hroot rfl (loadLinks_cons hserializable rfl loadLinks_nil)) rfl
  exact load_of_links rfl (by decide) rfl (loadLinks_cons hthrowable rfl loadLinks_nil) rfl

theorem runs_enterFail :
    ∃ l, Prog.Runs 1 ((enterEntry (bounded 4) failEntry []).on (entryThread [] none), throwerScene)
      (.done (.ok (), entryThread [entryFrame failEntry failCode] none), ⟨throwerMachine, l⟩) := by
  have hresolve : throwerScene.machine.resolve (fun l => .loadClass l throwerName) =
      (.ok throwerClass, { throwerScene.machine with classes := throwerTable }) :=
    Machine.resolve_eq (fun _ => rfl) load_thrower
  exact ⟨_, Prog.runs_of_step 41 rfl hresolve rfl⟩

theorem endsAt_followFail :
    (follow 4).EndsAt 1 (entryThread [entryFrame failEntry failCode] none) throwerMachine
      (.ok (some ⟨0⟩)) (entryThread [] (some ⟨0⟩)) throwerLater := by
  have hresolve : throwerMachine.resolve
      (fun l => .resolveClass l throwerName (some throwerClass)) =
        (.ok throwerClass, throwerMachine) := by
    refine Machine.resolve_of_eq (Resolving.resolveClass_of_load (load_of_get? rfl) ?_)
    rintro _ ⟨⟩
    rfl
  exact .of_resolve 4 30 hresolve fun _ => ⟨_, _, _, rfl, rfl⟩

theorem endsAt_ended :
    (ended (.ok ())).EndsAt 1 (entryThread [] (some ⟨0⟩)) throwerLater
      (.ok (.error (.uncaught throwerName))) (entryThread [] (some ⟨0⟩)) throwerLater :=
  .of_iterate 3 fun _ => ⟨_, rfl⟩

theorem endsAt_enterPass :
    (enterEntry (bounded 4) passEntry []).EndsAt 1 (entryThread [] (some ⟨0⟩)) throwerLater
      (.ok ()) (entryThread [entryFrame passEntry passCode] (some ⟨0⟩)) throwerLater := by
  have hresolve : throwerLater.resolve (fun l => .loadClass l throwerName) =
      (.ok throwerClass, throwerLater) :=
    Machine.resolve_of_eq (load_of_get? rfl)
  exact .of_resolve 0 60 hresolve fun _ => ⟨_, _, _, rfl, rfl⟩

theorem endsAt_followPass :
    (follow 4).EndsAt 1 (entryThread [entryFrame passEntry passCode] (some ⟨0⟩)) throwerLater
      (.ok none) (entryThread [] (some ⟨0⟩)) throwerLater :=
  .of_iterate 60 fun _ => ⟨_, rfl⟩

def throwerCalls : List (EntryPoint × List String) := [(failEntry, []), (passEntry, [])]

def throwerResults : List (Except Trap (Option ObjectId) × Except RunError Unit) :=
  [(.ok (some ⟨0⟩), .error (.uncaught throwerName)), (.ok none, .error (.uncaught throwerName))]

theorem endsAt_passCall :
    (followCall 4 passEntry []).EndsAt 1 (entryThread [] (some ⟨0⟩)) throwerLater
      (.ok (.ok none, .error (.uncaught throwerName))) (entryThread [] (some ⟨0⟩)) throwerLater := by
  have hrun : (followEntry 4 passEntry []).EndsAt 1 (entryThread [] (some ⟨0⟩)) throwerLater
      (.ok none) (entryThread [] (some ⟨0⟩)) throwerLater := by
    refine (endsAt_enterPass.bind endsAt_followPass).attempt_bind ?_
    exact .of_iterate 0 fun _ => ⟨_, rfl⟩
  refine hrun.attempt_bind (endsAt_ended.bind ?_)
  exact .of_iterate 0 fun _ => ⟨_, rfl⟩

theorem ends_failCall {Q : Post (Except Trap (Option ObjectId) × Except RunError Unit)}
    (hq : ∀ l, Q (.ok (.ok (some ⟨0⟩), .error (.uncaught throwerName)))
      (entryThread [] (some ⟨0⟩)) ⟨throwerLater, l⟩) :
    (followCall 4 failEntry []).Ends 1 (entryThread [] none) Q throwerScene := by
  obtain ⟨l, hr⟩ := runs_enterFail
  refine ends_bind.2 (ends_attempt.2 (ends_bind.2 (ends_attempt.2 (ends_bind.2 ?_))))
  refine Prog.ends_iff_runs.2 ⟨_, _, hr, ?_⟩
  rw [after_ok]
  refine endsAt_followFail.ends (fun l => ?_) l
  exact ends_bind.2 (endsAt_ended.ends hq l)

theorem ends_throwerCalls :
    (throwerCalls.mapM fun call => followCall 4 call.1 call.2).Ends 1 (entryThread [] none)
      (fun r t' _ => r = .ok throwerResults ∧ t' = entryThread [] (some ⟨0⟩)) throwerScene := by
  rw [throwerCalls, List.mapM_cons, List.mapM_cons, List.mapM_nil]
  refine ends_bind.2 (ends_failCall fun l => ?_)
  rw [after_ok]
  refine ends_bind.2 (ends_bind.2 (endsAt_passCall.ends (fun _ => ?_) l))
  exact ⟨rfl, rfl⟩

theorem entry_results_name_last_escapee_of_thrower :
    (ClassTable.Closed throwerScene.machine.libraries throwerScene.machine.classes ∧
      throwerScene.machine.Knows none) ∧
    (throwerCalls.mapM fun call => runEntry (bounded 4) call.1 call.2) =
      List.map Prod.snd <$> (throwerCalls.mapM fun call => followCall 4 call.1 call.2) ∧
    (throwerCalls.mapM fun call => followCall 4 call.1 call.2).Ends 1 (entryThread [] none)
      (fun r _ s' => r = .ok throwerResults ∧
        s'.machine.Reported none throwerResults (some ⟨0⟩)) throwerScene := by
  have hc : ClassTable.Closed throwerScene.machine.libraries throwerScene.machine.classes :=
    ClassTable.closed_nil _
  have ho : throwerScene.machine.Knows none := nofun
  obtain ⟨hresults, hmeets⟩ :=
    entry_results_name_last_escapee 4 throwerCalls (entryThread [] none) throwerScene hc ho
  refine ⟨⟨hc, ho⟩, hresults, ?_⟩
  have hends := Prog.Ends.of_meets (fun _ => Machine.upkept_carries.refl _) hmeets ends_throwerCalls
  refine (Prog.Ends.and hends ends_throwerCalls).mono ?_
  rintro ⟨_, _⟩ _ ⟨⟨l, hl, -, hreported⟩, rfl, rfl⟩
  cases hl
  exact ⟨rfl, hreported⟩

end Thrower

end Engine

end BytecodeMachine
