import BytecodeMachine.Bridge.ArrayCopy
import BytecodeMachine.Exec.Waiting
import BytecodeMachine.SystemCall

namespace BytecodeMachine.Exec

open Ieee

def waitOn (o : ObjectId) (millis : Int64) (nanos : Int32) : Exec WaitStatus := do
  let thread := (← get).id
  update (·.modifyRecord thread fun r => { r with waitingOn := some o, status := .waiting })
  let outcome ← lift (.waitOn thread o millis nanos)
  update (·.modifyRecord thread fun r => { r with waitingOn := none, status := .running })
  ofTrap outcome

def notify (o : ObjectId) (all : Bool) : Exec Unit := do
  let thread := (← get).id
  ofTrap (← lift (.notify thread o all))

def identityHash : Option ObjectId → Int32
  | none => 0
  | some o => .ofNat (o.index + 1)

/-- Asking who has the lock attaches no monitor. -/
def holdsLock (thread : Int32) (o : ObjectId) : Exec NativeValue := do
  let held ← read fun m => (m.monitor? o).any fun monitor =>
    0 ≤ thread && monitor.isHeldBy thread.toInt.toNat
  pure (.int (if held then 1 else 0))

def sleep (millis : Int64) : Exec NativeValue := do
  let thread := (← get).id
  let deadline ← read fun m => m.clock + millis.toInt.toNat * 1000000
  update (·.setStatus thread .waiting)
  let wake ← await (.nap thread deadline)
  update (·.setStatus thread .running)
  match wake with
  | .terminated => throw .exit
  | .interrupted => raise .interruptedSleeping
  | _ => pure .void

def waitFor (arguments : List NativeValue) : Exec NativeValue := do
  let o ← objectArgument arguments 0 "wait"
  let millis ← longArgument arguments 1
  let nanos ← match arguments[2]? with
    | some v => nativeInt v
    | none => pure 0
  match ← waitOn o millis nanos with
  | .interrupted => raise .interruptedWaiting
  | .notified | .timedOut => pure .void

def classNameText (arguments : List NativeValue) : Exec NativeValue := do
  let o ← objectArgument arguments 0 "getName"
  match ← classNameOf? o with
  | some n => pure (.string n.toSource)
  | none => fail .namelessClassObject

def copyArguments (arguments : List NativeValue) : Exec NativeValue := do
  let source ← objectArgument arguments 0 "arraycopy"
  let sourcePosition ← intArgument arguments 1
  let dest ← objectArgument arguments 2 "arraycopy"
  let destPosition ← intArgument arguments 3
  let length ← intArgument arguments 4
  copyArray source sourcePosition dest destPosition length
  pure .void

def property (name : String) : Exec NativeValue := do
  match ← read (·.settings.properties.get? name) with
  | some text => pure (.string text)
  | none => pure .null

def builtin (e : Engine) (b : Builtin) (arguments : List NativeValue) : Exec NativeValue := do
  match b with
  | .getClass =>
      let c ← classOf (← objectArgument arguments 0 "getClass")
      pure (.klass c.name)
  | .hashCode =>
      let o ← objectArgument arguments 0 "hashCode"
      pure (.int (identityHash (some o)))
  | .notify all =>
      notify (← objectArgument arguments 0 (if all then "notifyAll" else "notify")) all
      pure .void
  | .wait => waitFor arguments
  | .className => classNameText arguments
  | .intern =>
      let text ← stringValue (← objectArgument arguments 0 "intern")
      pure (.object (← intern e text))
  | .copyArray => copyArguments arguments
  | .currentTimeMillis => pure (.long (← read fun m => .ofNat m.wallMillis))
  | .nanoTime => pure (.long (← read fun m => .ofNat m.clock))
  | .identityHashCode => pure (.int (identityHash (← referenceArgument arguments 0)))
  | .getProperty => property (← stringArgument arguments 0 .nullPropertyName)
  | .sleep => sleep (← longArgument arguments 0)
  | .holdsLock =>
      let o ← objectArgument arguments 0 "holdsLock"
      holdsLock (.ofNat (← get).id) o

def pack (high low : Int32) : UInt64 :=
  high.toUInt32.toUInt64 <<< 32 ||| low.toUInt32.toUInt64

def callArguments : List NativeValue → Exec (List Int32)
  | [] => pure []
  | v :: rest => do
      let n ← nativeInt v
      pure (n :: (← callArguments rest))

def callFromGuest (e : Engine) (arguments : List NativeValue) : Exec Int32 := do
  match ← callArguments arguments with
  | [] => fail .noCallIndex
  | index :: rest => systemCall e index rest

def allocateObject (e : Engine) (name : String) : Exec NativeValue := do
  match ClassName.ofSource name with
  | .error err => raise (.badClassName err)
  | .ok n =>
      let c ← loadClass n
      pure (.object (← allocateInstance e c))

def arrayOfClass (v : NativeValue) (length : Exec Int32) : Exec NativeValue := do
  let n ← match v with
    | .klass n => pure n
    | .null => raise .nullArrayClass
    | v => do
        let shown ← read fun m => v.shown m
        fail (.arrayNewOf shown)
  let length ← length
  if !n.isArray then
    raise (.notArrayClass n)
  if length < 0 then
    raise (.negativeSize length)
  let c ← loadClass n
  pure (.object (← newArray c length.toInt.toNat))

/-- Null stands for a class that is not found, whichever class that is. -/
def classByName (name : String) : Exec NativeValue := do
  match ClassName.ofSource name with
  | .error _ => pure .null
  | .ok n =>
      match ← act (·.resolve fun libraries => .loadClass libraries n) with
      | .ok c => pure (.klass c.name)
      | .error (.classNotFound _) => pure .null
      | .error err => throw err.trap

def orNotHeld (x : Exec Int32) : Exec NativeValue := do
  match ← attempt x with
  | .ok n => pure (.int n)
  | .error (.raise cause) =>
      if cause.condition = .illegalMonitorState then pure (.int (-1)) else raise cause
  | .error trap => throw trap

def intrinsic (e : Engine) (i : Intrinsic) (arguments : List NativeValue) : Exec NativeValue := do
  match i with
  | .arrayLength =>
      let s ← storage (← objectArgument arguments 0 "arrayLength")
      pure (.int (.ofNat s.length))
  | .longPack =>
      let high ← intArgument arguments 0
      pure (.long (pack high (← intArgument arguments 1)).toInt64)
  | .longUnpackHigh =>
      let n ← longArgument arguments 0
      pure (.int (n.toUInt64 >>> 32).toUInt32.toInt32)
  | .longUnpackLow => pure (.int (← longArgument arguments 0).toInt32)
  | .doublePack =>
      let high ← intArgument arguments 0
      pure (.double ⟨pack high (← intArgument arguments 1)⟩)
  | .doubleToRawLongBits =>
      let x ← nativeDouble (← argument arguments 0)
      pure (.long x.bits.toInt64)
  | .longBitsToDouble => pure (.double ⟨(← longArgument arguments 0).toUInt64⟩)
  | .floatToRawIntBits =>
      let x ← nativeFloat (← argument arguments 0)
      pure (.int x.bits.toInt32)
  | .intBitsToFloat => pure (.float ⟨(← intArgument arguments 0).toUInt32⟩)
  | .objectToPointer =>
      let o ← referenceArgument arguments 0
      pure (.int (← act (·.pointer o)))
  | .pointerToObject =>
      let id ← intArgument arguments 0
      pure (.ofReference (← read (·.pointers.get? id)))
  | .systemCall hasResult =>
      let n ← callFromGuest e arguments
      pure (if hasResult then .int n else .void)
  | .allocateObject => allocateObject e (← stringArgument arguments 0 .nullClassName)
  | .newArray => arrayOfClass (← argument arguments 0) (intArgument arguments 1)
  | .classByName => classByName (← stringArgument arguments 0 .nullClassName)
  | .classOf =>
      let c ← classOf (← objectArgument arguments 0 "classOf")
      pure (.klass c.name)
  | .identityHashCode => pure (.int (identityHash (← referenceArgument arguments 0)))
  | .holdsLock =>
      let thread ← intArgument arguments 0
      holdsLock thread (← objectArgument arguments 1 "holdsLock")
  | .monitorNotify =>
      let o ← objectArgument arguments 0 "monitorNotify"
      let all ← intArgument arguments 1
      orNotHeld do
        notify o (all ≠ 0)
        pure 0
  | .monitorWait =>
      let o ← objectArgument arguments 0 "monitorWait"
      let millis ← longArgument arguments 1
      let nanos ← intArgument arguments 2
      orNotHeld do
        pure (← waitOn o millis nanos).code

end BytecodeMachine.Exec
