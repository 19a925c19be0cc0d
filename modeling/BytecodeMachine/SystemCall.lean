import BytecodeMachine.Exec.Registry
import BytecodeMachine.Exec.Text

namespace BytecodeMachine

inductive SystemCall where
  | query
  | errorGet
  | errorSet
  | wallMillisLow
  | wallMillisHigh
  | nanosLow
  | nanosHigh
  | memoryFree
  | memoryUsed
  | memoryMax
  | collectGarbage
  | exit
  | apiLevel
  | stdin
  | stdout
  | stderr
  | writeByte
  | loadString
  | unimplemented
  | stackHeight
  | stackItem
  deriving DecidableEq, Repr

namespace SystemCall

def all : List SystemCall :=
  [query, errorGet, errorSet, wallMillisLow, wallMillisHigh, nanosLow, nanosHigh, memoryFree,
    memoryUsed, memoryMax, collectGarbage, exit, apiLevel, stdin, stdout, stderr, writeByte,
    loadString, unimplemented, stackHeight, stackItem]

theorem length_all : all.length = systemCallCount := rfl

def ofIndex? (index : Int32) : Option SystemCall :=
  if index < 0 then none else all[index.toInt.toNat]?

end SystemCall

inductive CallError where
  | unsupported
  | invalidPipe
  | badWrite
  | outOfRange
  deriving DecidableEq, Repr

def CallError.code : CallError → Int32
  | .unsupported => -1
  | .invalidPipe => -2
  | .badWrite => -3
  | .outOfRange => -4

namespace Machine

def epoch : Nat := 1600000000000

def wallMillis (m : Machine) : Nat := epoch + m.clock / 1000000

def largestInt : Nat := 0x7FFFFFFF

def clamp (bytes : Nat) : Int32 := .ofNat (min bytes largestInt)

def low (n : Nat) : Int32 := n.toUInt32.toInt32

def high (n : Nat) : Int32 := low (n / 0x100000000)

def memoryFree (m : Machine) : Nat := m.settings.memoryMax - m.allocated

def errorSlot (index : Int32) : Nat :=
  if index < 0 then 0 else index.toInt.toNat

def error (m : Machine) (thread : Nat) (index : Int32) : Int32 :=
  ((m.record? thread).map (·.error (errorSlot index))).getD 0

def setError (thread : Nat) (index code : Int32) (m : Machine) : Int32 × Machine :=
  (m.error thread index, m.modifyRecord thread (·.setError (errorSlot index) code))

def writeByte (pipe byte : Int32) (m : Machine) : Except CallError Int32 × Machine :=
  let bytes := [byte.toUInt32.toUInt8]
  if pipe = 1 then
    match m.stdout.write? bytes with
    | some p => (.ok 1, { m with stdout := p })
    | none => (.error .badWrite, m)
  else if pipe = 2 then
    match m.stderr.write? bytes with
    | some p => (.ok 1, { m with stderr := p })
    | none => (.error .badWrite, m)
  else (.error .invalidPipe, m)

/-- What is told of a frame: the names of its class and method, the type of the method, the source file,
the line, and twice the place of the instruction. -/
def frameItem (f : Frame) (a : Activation) (item : Int32) (m : Machine) :
    Except CallError Int32 × Machine :=
  let text (s : String) :=
    let (id, m) := m.stringId s
    (Except.ok id, m)
  if item = 0 then text a.klass.name.text
  else if item = 1 then text a.method.name.text
  else if item = 2 then text a.method.type.text
  else if item = 3 then
    match a.klass.source with
    | some file => text file
    | none => (.error .outOfRange, m)
  else if item = 4 then (.ok ((f.line?.map Int32.ofNat).getD (-1)), m)
  else if item = 5 || item = 6 then (.ok (.ofNat f.lastPc), m)
  else (.error .outOfRange, m)

end Machine

namespace Exec

def setError (index code : Int32) : Exec Int32 := do
  let thread := (← get).id
  act (·.setError thread index code)

def loadString (e : Engine) (id : Int32) : Exec (Except CallError Int32) := do
  match ← read (·.strings.get? id) with
  | none => pure (.error .outOfRange)
  | some text =>
      let o ← newString e text
      pure (.ok (← act (·.pointer (some o))))

def stackItem (depth item : Int32) : Exec (Except CallError Int32) := do
  if depth < 0 then
    return .error .outOfRange
  match (← get).activations[depth.toInt.toNat]? with
  | none => pure (.error .outOfRange)
  | some (f, a) => act (·.frameItem f a item)

def exitMachine (code : Int32) : Exec Unit := do
  let t ← get
  note (.exitRequested t.name code)
  let _ ← setError 11 0
  update (·.modifyRecord t.id fun r => { r with signaledExit := true })
  lift (.exit code)
  throw .exit

def runCall (e : Engine) (call : SystemCall) (arguments : List Int32) :
    Exec (Except CallError Int32) := do
  let first := arguments[0]?.getD 0
  let second := arguments[1]?.getD 0
  match call with
  | .query => pure (.ok (if (SystemCall.ofIndex? first).isSome then 1 else 0))
  | .errorGet =>
      let thread := (← get).id
      pure (.ok (← read (·.error thread first)))
  | .errorSet => pure (.ok (← setError first second))
  | .wallMillisLow => pure (.ok (← read fun m => Machine.low m.wallMillis))
  | .wallMillisHigh => pure (.ok (← read fun m => Machine.high m.wallMillis))
  | .nanosLow => pure (.ok (← read fun m => Machine.low m.clock))
  | .nanosHigh => pure (.ok (← read fun m => Machine.high m.clock))
  | .memoryFree => pure (.ok (← read fun m => Machine.clamp m.memoryFree))
  | .memoryUsed => pure (.ok (← read fun m => Machine.clamp m.allocated))
  | .memoryMax => pure (.ok (← read fun m => Machine.clamp m.settings.memoryMax))
  | .collectGarbage => pure (.ok 0)
  | .exit =>
      exitMachine first
      pure (.ok 0)
  | .apiLevel => pure (.ok 30000)
  | .stdin => pure (.ok 0)
  | .stdout => pure (.ok 1)
  | .stderr => pure (.ok 2)
  | .writeByte => act (·.writeByte first second)
  | .loadString => loadString e first
  | .unimplemented => fail (.unimplemented first)
  | .stackHeight => pure (.ok (.ofNat (← get).activations.length))
  | .stackItem => stackItem first second

/-- A call that fails gives minus one. An index without a call is held against the first one. -/
def systemCall (e : Engine) (index : Int32) (arguments : List Int32) : Exec Int32 := do
  match SystemCall.ofIndex? index with
  | none =>
      note (.unsupportedCall index)
      let _ ← setError 0 CallError.unsupported.code
      pure (-1)
  | some call =>
      note (.systemCall index.toInt.toNat arguments)
      match ← runCall e call arguments with
      | .ok n =>
          let _ ← setError index 0
          pure n
      | .error err =>
          let _ ← setError index err.code
          pure (-1)

end Exec

end BytecodeMachine
