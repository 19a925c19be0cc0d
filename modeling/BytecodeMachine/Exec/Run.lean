import BytecodeMachine.Bridge.Call
import BytecodeMachine.Exec.Arrays
import BytecodeMachine.Exec.Fields
import BytecodeMachine.Exec.Invocation
import BytecodeMachine.Exec.Throwing

namespace BytecodeMachine.Exec

def execute (e : Engine) (i : Instruction) : Exec Unit := do
  match i with
  | .nop => pure ()
  | .nullConst => push .null
  | .const n => push n.value
  | .ldc c => loadConstant e c
  | .load k slot => inFrame (.loadLocal k slot)
  | .store k slot => inFrame (.storeLocal k slot)
  | .arrayLoad e => arrayLoad e
  | .arrayStore e => arrayStore e
  | .shuffle s => inFrame (.shuffle s)
  | .arithmetic op n => inFrame (.arithmetic op n)
  | .negate n => inFrame (.negate n)
  | .shift s w => inFrame (.shift s w)
  | .bitwise op w => inFrame (.bitwise op w)
  | .increment slot delta => inFrame (.increment slot delta)
  | .convert c => inFrame (.convert c)
  | .compareLong => inFrame .compareLong
  | .compareFloat p => inFrame (.compareFloat p)
  | .compareDouble p => inFrame (.compareDouble p)
  | .ifZero c target => inFrame (.ifZero c target)
  | .ifInts c target => inFrame (.ifInts c target)
  | .ifSame t target => inFrame (.ifSame t target)
  | .ifNull t target => inFrame (.ifNull t target)
  | .goto target => inFrame (.jump target)
  | .tableSwitch default low targets => inFrame (.tableSwitch default low targets)
  | .lookupSwitch default targets => inFrame (.lookupSwitch default targets)
  | .returnValue _ => returnFrom true
  | .returnVoid => returnFrom false
  | .getStatic f => getStatic e f
  | .putStatic f => putStatic e f
  | .getField f => getField f
  | .putField f => putField f
  | .invoke k m => invoke e k m
  | .new n => newInstance e n
  | .newArray b => newPrimitiveArray b
  | .newReferenceArray n => newReferenceArray n
  | .newMultiArray n dimensions => newMultiArray n dimensions
  | .arrayLength => arrayLength
  | .throw =>
      let o ← inFrame (.popObject "athrow")
      throw (.throw o)
  | .checkCast n => checkCast n
  | .instanceOf n => instanceOf n
  | .monitorEnter =>
      let o ← inFrame (.popObject "monitorenter")
      let thread := (← get).id
      ofTrap (← lift (.enterMonitor thread o))
  | .monitorExit =>
      let o ← inFrame (.popObject "monitorexit")
      let thread := (← get).id
      ofTrap (← lift (.exitMonitor thread o true))

def fetch : Exec (Method × Nat × Instruction) := do
  match (← get).frames with
  | [] => fail .noFrame
  | f :: rest =>
      match f.tossed with
      | some o =>
          modify fun t => { t with frames := { f with tossed := none } :: rest }
          throw (.throw o)
      | none =>
          match f.activation with
          | none => fail .blankStep
          | some a =>
              match f.instruction? f.pc with
              | none => fail (.ranOff a.method.ref f.pc)
              | some i =>
                  modify fun t =>
                    { t with
                      frames := { f with lastPc := f.pc, pc := f.pc + 1, steps := f.steps + 1 }
                        :: rest }
                  warn a.method (f.steps + 1)
                  pure (a.method, f.pc, i)
where
  warn (m : Method) (steps : Nat) : Exec Unit := do
    let every ← read (·.settings.stepWarning)
    if 0 < every && steps % every = 0 then
      let name := (← get).name
      note (.manySteps m.ref steps name)

def step (e : Engine) : Exec Unit := do
  let (m, pc, i) ← fetch
  note (.step m.ref pc i)
  execute e i

/-- Ends a run. What the guest could have caught, but could not be made, is a fault. -/
def abort (trap : Trap) (limit : Nat) : Exec Unit := do
  match trap with
  | .exit =>
      if limit = 0 then
        exitAllFrames
      throw .exit
  | .fatal fault => abortFatal fault
  | .raise cause => abortFatal (.couldNotRaise cause.condition.className cause.message)
  | .throw o => throw (.throw o)
where
  abortFatal (fault : Fault) : Exec Unit := do
    modify fun t => { t with fatalTrace := some (t.fatalTrace.getD t.trace) }
    if limit = 0 then
      reportFatal fault
    throw (.fatal fault)

def handleTrap (e : Engine) (trap : Trap) (limit : Nat) : Exec Unit := do
  match ← attempt (thrown trap) with
  | .error other => abort other limit
  | .ok o =>
      match ← attempt (dispatch e o) with
      | .ok () => pure ()
      | .error other => abort other limit
where
  /-- The object that a trap throws, also if that was to be another one. -/
  thrown : Trap → Exec ObjectId
    | .throw o => pure o
    | .raise cause => do
        match ← attempt (materialize e cause) with
        | .ok o | .error (.throw o) => pure o
        | .error other => throw other
    | trap => throw trap

def run (e : Engine) (limit : Nat) : Exec Unit := do
  if (← get).isWithin limit then
    return ()
  turn
  if ← shouldTerminate then
    return ← abort .exit limit
  match ← attempt (step e) with
  | .ok () => pure ()
  | .error trap =>
      pass (.trapped trap)
      handleTrap e trap limit
  e.run limit

end BytecodeMachine.Exec
