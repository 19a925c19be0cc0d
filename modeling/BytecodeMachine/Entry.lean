import BytecodeMachine.Engine

namespace BytecodeMachine

structure EntryPoint where
  klass : ClassName
  method : MemberName
  type : MethodType
  deriving DecidableEq, Repr

namespace EntryPoint

def main (c : ClassName) : EntryPoint := ⟨c, .main, .void [.array .string]⟩

def ref (p : EntryPoint) : MethodRef := ⟨p.klass, p.method, p.type⟩

def threadName (p : EntryPoint) : String := p.klass.toSource ++ "." ++ p.method.text

end EntryPoint

namespace Exec

def enterEntry (e : Engine) (p : EntryPoint) (arguments : List String) : Exec Unit := do
  let c ← loadClass p.klass
  e.setUp c
  match (c.declaredMethod? p.method p.type).filter Method.isStatic with
  | none => raise (.noEntry p.ref)
  | some m =>
      let values ← if m.type.parameters.isEmpty then pure []
        else do pure [Value.object (← newStringArray e (arguments.map some))]
      let name := (← get).name
      note (.entering name m.ref)
      enterMethod e c m values

def settle (e : Engine) (outcome : Except Trap Unit) : Exec Unit := do
  match outcome with
  | .ok () => pure ()
  | .error (.throw o) => uncaught e o
  | .error (.raise cause) => do
      match ← attempt (materialize e cause) with
      | .ok o | .error (.throw o) => uncaught e o
      | .error other => throw other
  | .error other => throw other

def ended (outcome : Except Trap Unit) : Exec (Except RunError Unit) := do
  match outcome with
  | .ok () =>
      match (← get).uncaught with
      | none => pure (.ok ())
      | some o => do pure (.error (.uncaught (← classOf o).name))
  | .error (.fatal fault) =>
      reportFatal fault
      pure (.error (.fatal fault))
  | .error .exit =>
      exitAllFrames
      match ← read (·.exitStatus) with
      | none => pure (.ok ())
      | some code => pure (if code = 0 then .ok () else .error (.exit code))
  | .error other =>
      let shown ← read fun m => m.shownTrap other
      reportFatal (.couldNotRaiseTrap shown)
      pure (.error (.fatal (.couldNotRaiseTrap shown)))

def runEntry (e : Engine) (p : EntryPoint) (arguments : List String) :
    Exec (Except RunError Unit) := do
  let outcome ← attempt do
    enterEntry e p arguments
    e.run 0
  ended (← attempt (settle e outcome))

end Exec

namespace Prog

def outcomeOf (r : Except Trap (Except RunError Unit)) : Except RunError Unit :=
  match r with
  | .ok result => result
  | .error (.fatal fault) => .error (.fatal fault)
  | .error _ => .error (.fatal .noFrame)

def runThread (e : Engine) (t : Thread) (p : EntryPoint) (arguments : List String) :
    Prog (Except RunError Unit) := do
  let (r, t) ← (Exec.runEntry e p arguments).on t
  let result := outcomeOf r
  update (·.finish t.id t.name result)
  turn
  update (·.forget t.id)
  pure result

def runMain (e : Engine) (p : EntryPoint) (arguments : List String) :
    Prog (Except RunError Unit) := do
  let t ← newThread "main"
  runThread e t p arguments

end Prog

end BytecodeMachine
