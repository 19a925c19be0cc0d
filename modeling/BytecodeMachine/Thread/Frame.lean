import BytecodeMachine.Class
import BytecodeMachine.Trap

/-!
Frames: the locals and operands of a method that is being run. A blank frame runs nothing; it stands
under a call from outside and takes its result or what was thrown out of it.
-/

namespace BytecodeMachine

/-- A wide value is in the lower of its two slots, and a top is in the upper one. -/
inductive Slot where
  | empty
  | value (v : Value)
  | top
  deriving DecidableEq, Repr

structure Activation where
  klass : Class
  method : Method

structure Frame where
  activation : Option Activation
  locals : Array Slot
  stack : List Value
  pc : Nat
  lastPc : Nat
  tossed : Option ObjectId
  steps : Nat

namespace Frame

def blank : Frame := ⟨none, #[], [], 0, 0, none, 0⟩

def isBlank (f : Frame) : Bool := f.activation.isNone

def pack (arguments : List Value) : List Slot :=
  arguments.flatMap fun v => if v.width = 2 then [.value v, .top] else [.value v]

def argumentWidth : List Value → Nat
  | [] => 0
  | v :: vs => v.width + argumentWidth vs

theorem length_pack (arguments : List Value) :
    (pack arguments).length = argumentWidth arguments := by
  induction arguments with
  | nil => rfl
  | cons v vs ih =>
      have : (pack (v :: vs)).length = v.width + (pack vs).length := by
        rcases v.width_eq_one_or_two with h | h <;> simp [pack, h] <;> omega
      simp [argumentWidth, this, ih]

def enter (c : Class) (m : Method) (arguments : List Value) : Except Fault Frame :=
  match m.code with
  | none => .error (.noCode m.ref)
  | some code =>
      if argumentWidth arguments ≠ m.argumentSlots then
        .error (.argumentWidth m.ref m.argumentSlots (argumentWidth arguments))
      else
        let packed := pack arguments
        let spare := List.replicate (code.maxLocals - packed.length) Slot.empty
        .ok { blank with activation := some ⟨c, m⟩, locals := (packed ++ spare).toArray }

def code? (f : Frame) : Option Code :=
  f.activation.bind fun a => a.method.code

def instruction? (f : Frame) (pc : Nat) : Option Instruction :=
  f.code?.bind fun c => c.instructions[pc]?

def line? (f : Frame) : Option Nat :=
  f.code?.bind fun c => c.lineAt f.lastPc

def describe (f : Frame) : String :=
  match f.activation with
  | none => "<host call>"
  | some a =>
      let source := a.klass.source.getD "Unknown Source"
      let place := match f.line? with
        | some line => source ++ ":" ++ toString line
        | none => source
      a.method.text ++ " (" ++ place ++ ", pc " ++ toString f.lastPc ++ ")"

def load (f : Frame) (index : Nat) : Except Fault Value :=
  match f.locals[index]? with
  | some (.value v) => .ok v
  | some .top => .error (.upperHalf index)
  | some .empty => .error (.unset index)
  | none => .error (.localOutOfRange index)

/-- Empties the lower half of a wide value whose upper half is at an index. -/
def dropLower (locals : Array Slot) (index : Nat) : Array Slot :=
  match locals[index]? with
  | some .top => if 0 < index then locals.setIfInBounds (index - 1) .empty else locals
  | _ => locals

/-- Empties the upper half of a wide value whose lower half is at an index. -/
def dropUpper (locals : Array Slot) (index : Nat) : Array Slot :=
  match locals[index]? with
  | some (.value v) => if v.width = 2 then locals.setIfInBounds (index + 1) .empty else locals
  | _ => locals

def place (locals : Array Slot) (index : Nat) (v : Value) : Array Slot :=
  let locals := locals.setIfInBounds index (.value v)
  if v.width = 2 then locals.setIfInBounds (index + 1) .top else locals

/-- Writes a value that fits. Of a wide value that it overlaps, no half is left. -/
def store (f : Frame) (index : Nat) (v : Value) : Except Fault Frame :=
  if f.locals.size < index + v.width then .error (.localOutOfRange index)
  else
    let locals := dropUpper (dropLower f.locals index) (index + v.width - 1)
    .ok { f with locals := place locals index v }

end Frame

namespace Value

def asInt : Value → Except Fault Int32
  | .int n => .ok n
  | v => .error (.kindMismatch .int v.kind)

def asLong : Value → Except Fault Int64
  | .long n => .ok n
  | v => .error (.kindMismatch .long v.kind)

def asFloat : Value → Except Fault Ieee.Single
  | .float x => .ok x
  | v => .error (.kindMismatch .float v.kind)

def asDouble : Value → Except Fault Ieee.Double
  | .double x => .ok x
  | v => .error (.kindMismatch .double v.kind)

def asReference : Value → Except Fault (Option ObjectId)
  | .ref r => .ok r
  | v => .error (.kindMismatch .reference v.kind)

end Value

end BytecodeMachine
