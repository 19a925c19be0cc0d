import BytecodeMachine.Progress
import BytecodeMachine.Thread

namespace BytecodeMachine

abbrev Session := StateT Thread Prog

abbrev Exec := ExceptT Trap Session

/-- What may run guest code: the steps of a thread while it has more than some frames, the static setup
of a class, and native methods. -/
structure Engine where
  run : Nat → Exec Unit
  setUp : Class → Exec Unit
  native : Method → List Value → Exec (Option Value)

namespace Exec

def on {α : Type} (x : Exec α) (t : Thread) : Prog (Except Trap α × Thread) := x t

def lift {α : Type} (p : Prog α) : Exec α :=
  fun t => do
    let a ← p
    pure (.ok a, t)

def read {α : Type} (f : Machine → α) : Exec α := lift (.read f)

def update (f : Machine → Machine) : Exec Unit := lift (.update f)

def act {α : Type} (f : Machine → α × Machine) : Exec α := lift (.act f)

def note (e : Event) : Exec Unit := lift (.note e)

def pass (s : Sign) : Exec Unit := lift (.pass s)

def turn : Exec Unit := lift .turn

def await (b : Blocker) : Exec Wake := lift (.await b)

def raise {α : Type} (cause : Cause) : Exec α := throw (.raise cause)

def fail {α : Type} (fault : Fault) : Exec α := throw (.fatal fault)

def ofExcept {α : Type} : Except Fault α → Exec α
  | .ok a => pure a
  | .error fault => fail fault

def ofTrap {α : Type} : Except Trap α → Exec α
  | .ok a => pure a
  | .error trap => throw trap

def attempt {α : Type} (x : Exec α) : Exec (Except Trap α) :=
  fun t => do
    let (r, t) ← x.on t
    pure (.ok r, t)

def ending {α : Type} (x : Exec α) (after : Exec Unit) : Exec α := do
  let r ← attempt x
  after
  ofTrap r

def inFrame {α : Type} (action : FrameM α) : Exec α := do
  match (← get).frames with
  | [] => fail .noFrame
  | f :: rest =>
      let (r, f) := action.run.run f
      modify fun t => { t with frames := f :: rest }
      ofTrap r

def push (v : Value) : Exec Unit := inFrame (.push v)

def resolve {α : Type} (r : List Library → Resolving α) : Exec α := do
  match ← act (·.resolve r) with
  | .ok a => pure a
  | .error e => throw e.trap

def loadClass (n : ClassName) : Exec Class :=
  resolve fun libraries => .loadClass libraries n

def resolveClass (n : ClassName) : Exec Class := do
  let context := (← get).context?
  resolve fun libraries => .resolveClass libraries n context

def arrayClass (component : FieldType) : Exec Class :=
  resolve fun libraries => .arrayClass libraries component

def resolveField (f : FieldRef) : Exec (Class × Field) := do
  let context := (← get).context?
  resolve fun libraries => .resolveField libraries f context

def resolveMethod (m : MethodRef) : Exec (Class × Method) := do
  let context := (← get).context?
  resolve fun libraries => .resolveMethod libraries m context

def object (o : ObjectId) : Exec Object := do
  match ← read (·.heap.get? o) with
  | some object => pure object
  | none => fail .noSuchObject

def classOf (o : ObjectId) : Exec Class := do
  pure (← object o).klass

def shouldTerminate : Exec Bool := do
  let thread := (← get).id
  read (·.shouldTerminate thread)

def locked {α : Type} (x : Exec α) : Exec α := do
  let thread := (← get).id
  let _ ← await (.machineLock thread)
  x.ending (update Machine.unlock)

end Exec

end BytecodeMachine
