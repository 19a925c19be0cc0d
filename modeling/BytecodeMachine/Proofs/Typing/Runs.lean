import BytecodeMachine.Proofs.Initialization
import BytecodeMachine.Proofs.Typing.Code

namespace BytecodeMachine

variable {α : Type}

namespace Exec.Lawful

variable {e : Engine}

theorem warn (m : Method) (steps : Nat) : Lawful (Exec.fetch.warn m steps) := by
  refine (read _).bind fun every => ?_
  split
  · exact get.bind fun t => note _
  · exact pure ()

theorem fetch : Lawful Exec.fetch := by
  refine get.bind fun t => ?_
  split
  · exact fail _
  · split
    · exact (modify _).bind fun _ => throw _
    · split
      · exact fail _
      · split
        · exact fail _
        · exact (modify _).bind fun _ => (warn _ _).bind fun _ => pure _

theorem reportFatal (fault : Fault) : Lawful (Exec.reportFatal fault) := by
  refine get.bind fun t => ?_
  split
  · exact pure ()
  · refine (note _).bind fun _ => (set _).bind fun _ => (writeReport _ _).bind fun _ => ?_
    exact exitAllFrames.bind fun _ => lift (Prog.isRestful_exit 1)

theorem abort (trap : Trap) (limit : Nat) : Lawful (Exec.abort trap limit) := by
  have fatal (fault : Fault) : Lawful (Exec.abort.abortFatal limit fault) :=
    (modify _).bind fun _ => .check (reportFatal fault) fun _ => throw _
  cases trap with
  | exit => exact .check exitAllFrames fun _ => throw _
  | fatal fault => exact fatal fault
  | raise cause => exact fatal _
  | throw o => exact throw _

theorem step (he : e.Lawful) : Lawful (Exec.step e) :=
  fetch.bind fun ⟨_, _, i⟩ => (note _).bind fun _ => execute he i

theorem thrown (he : e.Lawful) (trap : Trap) : Lawful (Exec.handleTrap.thrown e trap) := by
  cases trap with
  | raise cause =>
    refine (materialize he cause).attempt_bind fun r => ?_
    rcases r with trap | o
    · cases trap <;> first | exact pure _ | exact throw _
    · exact pure o
  | throw o => exact pure o
  | fatal fault => exact throw _
  | exit => exact throw _

theorem handleTrap (he : e.Lawful) (trap : Trap) (limit : Nat) :
    Lawful (Exec.handleTrap e trap limit) := by
  refine (thrown he trap).attempt_bind fun r => ?_
  cases r with
  | error other => exact abort other limit
  | ok o =>
    refine (dispatch he o).attempt_bind fun r => ?_
    cases r with
    | error other => exact abort other limit
    | ok _ => exact pure ()

theorem run (he : e.Lawful) (limit : Nat) : Lawful (Exec.run e limit) := by
  refine get.bind fun t => ?_
  split
  · exact pure ()
  · refine (lift Prog.isRestful_turn).bind fun _ => ?_
    refine bind (get.bind fun t => read _) fun stop => ?_
    split
    · exact abort .exit limit
    · refine (step he).attempt_bind fun r => ?_
      cases r with
      | ok _ => exact he.run limit
      | error trap =>
        exact (pass _).bind fun _ => (handleTrap he trap limit).bind fun _ => he.run limit

end Exec.Lawful

theorem Engine.lawful_bounded (bound : Nat) : (bounded bound).Lawful := by
  induction bound with
  | zero => exact ⟨fun _ _ _ _ _ _ _ => trivial, fun _ _ _ _ _ _ _ _ => trivial,
      fun _ _ _ _ _ _ _ _ => trivial⟩
  | succ bound ih =>
    constructor
    · exact fun limit => Exec.Lawful.run ih limit
    · exact fun m c hc => Exec.Acts.setUp ih hc
    · exact fun m arguments => Exec.Lawful.callNative ih m arguments

namespace Exec.Lawful

variable {e : Engine} (he : e.Lawful)

include he

theorem enterEntry (p : EntryPoint) (arguments : List String) :
    Lawful (Exec.enterEntry e p arguments) := by
  intro m
  refine (Acts.loadClass _).bind fun c m1 _ hc => (he.setUp m1 c hc.2).bind fun _ m2 _ _ => ?_
  split
  · exact .raise _
  · rename_i f _
    have next (values : List Value) : Lawful (do
        let name := (← MonadState.get).name
        Exec.note (.entering name f.ref)
        Exec.enterMethod e c f values) :=
      get.bind fun t => (note _).bind fun _ => enterMethod he c f values
    dsimp only
    split
    · exact (pure []).bind next m2
    · exact (Acts.newStringArray he _).bind fun o m3 _ _ => (pure _).bind next m3

theorem settle (outcome : Except Trap Unit) : Lawful (Exec.settle e outcome) := by
  rcases outcome with trap | ⟨⟩
  · cases trap with
    | throw o => exact uncaught he o
    | raise cause =>
      refine (materialize he cause).attempt_bind fun r => ?_
      rcases r with trap | o
      · cases trap <;> first | exact uncaught he _ | exact throw _
      · exact uncaught he o
    | fatal fault => exact throw _
    | exit => exact throw _
  · exact pure ()

omit he in
theorem ended (outcome : Except Trap Unit) : Lawful (Exec.ended outcome) := by
  have other (trap : Trap) : Lawful (do
      let shown ← Exec.read fun m => m.shownTrap trap
      Exec.reportFatal (.couldNotRaiseTrap shown)
      Pure.pure (.error (.fatal (.couldNotRaiseTrap shown))) : Exec (Except RunError Unit)) :=
    (read _).bind fun shown => (reportFatal _).bind fun _ => pure _
  rcases outcome with trap | ⟨⟩
  · cases trap with
    | fatal fault => exact (reportFatal fault).bind fun _ => pure _
    | throw o => exact other _
    | raise cause => exact other _
    | exit =>
      refine exitAllFrames.bind fun _ => (read _).bind fun status => ?_
      cases status with
      | none => exact pure _
      | some code => exact pure _
  · refine get.bind fun t => ?_
    split
    · exact pure _
    · exact (classOf _).bind fun c => pure _

theorem runEntry (p : EntryPoint) (arguments : List String) :
    Lawful (Exec.runEntry e p arguments) := by
  refine attempt_bind ((enterEntry he p arguments).bind fun _ => he.run 0) fun r => ?_
  exact (settle he r).attempt_bind fun r => ended r

theorem serve (demands : List Demand) : Lawful (Exec.serve e demands) := by
  induction demands with
  | nil => exact pure ()
  | cons d rest ih =>
    refine attempt_bind ?_ fun _ => ih
    cases d with
    | entry p arguments => exact (runEntry he p arguments).bind fun _ => pure ()
    | setUp n => exact fun m => (Acts.loadClass n).bind fun c m1 _ hc => he.setUp m1 c hc.2
    | call ref arguments =>
      intro m
      refine (Acts.resolveMethod ref).bind fun ⟨c, f⟩ m1 _ _ => ?_
      exact ((invokeMethod he c f arguments).bind fun _ => pure ()) m1

end Exec.Lawful

theorem Machine.sound_start (libraries : List Library) (natives : NativeTable)
    (settings : Settings) (stdout stderr : Pipe) (journal : Journal) :
    (Scene.start libraries natives settings stdout stderr journal).machine.Sound where
  libraries := ⟨libraries, rfl⟩
  closed := ClassTable.closed_nil _
  known o object h := by cases h
  arrays o object s h := by cases h

structure Kept (c : Pool α × Scene) : Prop where
  sound : c.2.machine.Sound
  safe : ∀ i, (c.1 i).Safe (.deeds i) c.2

namespace Kept

variable {c c' : Pool α × Scene}

theorem step (h : Kept c) (hs : Pool.Step Machine.Rests c c') :
    c.2.machine.Deed c'.2.machine ∧ Kept c' := by
  have hd : c.2.machine.Deed c'.2.machine := by
    cases hs with
    | thread i hm => exact (Contract.family_deeds.moves (h.safe i) hm).1 h.sound
    | outside hm => exact .rest hm
  refine ⟨hd, h.sound.deed hd, ?_⟩
  exact Contract.family_deeds.step (fun _ _ _ hm _ => .single (.rest hm)) h.safe hs

theorem run (h : Kept c) (hr : Pool.Run Machine.Rests c c') :
    c.2.machine.Course c'.2.machine ∧ Kept c' := by
  induction hr with
  | refl => exact ⟨.refl, h⟩
  | tail _ hs ih =>
    obtain ⟨hd, hk⟩ := ih.2.step hs
    exact ⟨ih.1.tail hd, hk⟩

end Kept

theorem Engine.kept_sessions (bound : Nat) (libraries : List Library) (natives : NativeTable)
    (settings : Settings) (stdout stderr : Pipe) (journal : Journal) (name : Nat → String)
    (demands : Nat → List Demand) :
    Kept ((bounded bound).sessions name demands,
      .start libraries natives settings stdout stderr journal) where
  sound := Machine.sound_start ..
  safe i := by
    have h := Exec.Lawful.serve (lawful_bounded bound) (demands i)
    exact Prog.Meets.mono (h _ i (.start i (name i)) _ (Machine.sound_start ..) (.refl _))
      fun _ _ _ => trivial

end BytecodeMachine
