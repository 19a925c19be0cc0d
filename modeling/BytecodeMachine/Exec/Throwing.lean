import BytecodeMachine.Exec.Registry
import BytecodeMachine.Exec.Text
import BytecodeMachine.Text.Bytes

namespace BytecodeMachine.Exec

def report (headline : String) (frames : List String) : String :=
  headline ++ "\n*** EXTERNAL STACK TRACE ***\n*** INTERNAL STACK TRACE ***\n"
    ++ String.join (frames.map fun f => "\tat " ++ f ++ "\n")

def writeReport (headline : String) (frames : List String) : Exec Unit :=
  update fun m =>
    match m.stderr.write? (Text.bytes (report headline frames)) with
    | some pipe => { m with stderr := pipe }
    | none => m.note (.traceUnwritten Pipe.failure)

def exitAllFrames : Exec Unit := do
  let t ← get
  note (.unwinding t.id t.depth)
  set { t with frames := [] }

def reportFatal (fault : Fault) : Exec Unit := do
  let t ← get
  if t.fatalReported then
    return ()
  note (.fatal t.name fault)
  set { t with fatalReported := true, fatalTrace := none }
  writeReport ("FATAL: " ++ fault.message) (t.fatalTrace.getD t.trace)
  exitAllFrames
  lift (.exit 1)

def callHandler (e : Engine) (c : ClassName) (m : MemberName) (o : ObjectId) : Exec Unit := do
  let type := MethodType.void [.object .throwable]
  let c ← loadClass c
  e.setUp c
  match (c.declaredMethod? m type).filter Method.isStatic with
  | none => fail (.missingHook ⟨c.name, m, type⟩)
  | some handler =>
      let _ ← invokeMethod e c handler [.object o]

def runHandler (e : Engine) (o : ObjectId) : Exec Unit := do
  match ← read (·.settings.uncaughtHandler) with
  | none => pure ()
  | some (c, m) =>
      if (← get).inHandler then
        return ()
      modify fun t => { t with inHandler := true }
      let outcome ← attempt (callHandler e c m o)
      modify fun t => { t with inHandler := false }
      match outcome with
      | .ok () => pure ()
      | .error (.throw _) | .error (.raise _) => note (.handlerThrew c m)
      | .error trap => throw trap

def uncaught (e : Engine) (o : ObjectId) : Exec Unit := do
  let c ← classOf o
  let message ← throwableMessage? o
  let name := (← get).name
  note (.uncaught c.name name message)
  runHandler e o
  let headline := "Exception in thread \"" ++ name ++ "\" " ++ c.name.toSource
  let headline := match message with
    | some text => headline ++ ": " ++ text
    | none => headline
  let unwound := (← get).unwound
  modify fun t => { t with unwound := [] }
  writeReport headline unwound.reverse
  modify fun t => { t with uncaught := some o }

def findHandler (c : Class) : List Handler → Exec (Option Nat)
  | [] => pure none
  | h :: rest =>
      match h.catchType with
      | none => pure (some h.target)
      | some n => do
          match ← act (·.resolve fun libraries => .loadClass libraries n) with
          | .error e => fail (.handlerType n e)
          | .ok catchType =>
              if c.isAssignable catchType then pure (some h.target)
              else findHandler c rest

def dispatch (e : Engine) (o : ObjectId) : Exec Unit := do
  match (← get).frames with
  | [] => fail .noFrame
  | f :: rest =>
      if f.isBlank then
        modify fun t => { t with frames := { f with tossed := some o } :: rest }
      else
        let c ← classOf o
        let handlers := (f.code?.map (·.handlersAt f.lastPc)).getD []
        match ← findHandler c handlers with
        | some target =>
            pass (.handled o)
            let f := { f with stack := [.object o], pc := target }
            modify fun t => { t with frames := f :: rest, unwound := [] }
        | none =>
            modify fun t => { t with unwound := f.describe :: t.unwound }
            match rest with
            | [] =>
                modify fun t => { t with frames := [] }
                uncaught e o
            | caller :: rest =>
                modify fun t => { t with frames := { caller with tossed := some o } :: rest }

end BytecodeMachine.Exec
