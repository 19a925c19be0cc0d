import BytecodeMachine.Thread.Operands

namespace BytecodeMachine

open Ieee

namespace Arithmetic

def applyInt (op : Arithmetic) (a b : Int32) : Except Cause Int32 :=
  match op with
  | .add => .ok (a + b)
  | .sub => .ok (a - b)
  | .mul => .ok (a * b)
  | .div => if b = 0 then .error .divisionByZero else .ok (a / b)
  | .rem => if b = 0 then .error .divisionByZero else .ok (a % b)

def applyLong (op : Arithmetic) (a b : Int64) : Except Cause Int64 :=
  match op with
  | .add => .ok (a + b)
  | .sub => .ok (a - b)
  | .mul => .ok (a * b)
  | .div => if b = 0 then .error .divisionByZero else .ok (a / b)
  | .rem => if b = 0 then .error .divisionByZero else .ok (a % b)

def applyFloat (op : Arithmetic) (a b : Single) : Single :=
  match op with
  | .add => a.add b
  | .sub => a.sub b
  | .mul => a.mul b
  | .div => a.div b
  | .rem => a.rem b

def applyDouble (op : Arithmetic) (a b : Double) : Double :=
  match op with
  | .add => a.add b
  | .sub => a.sub b
  | .mul => a.mul b
  | .div => a.div b
  | .rem => a.rem b

end Arithmetic

namespace Bitwise

def applyInt (op : Bitwise) (a b : Int32) : Int32 :=
  match op with
  | .and => a &&& b
  | .or => a ||| b
  | .xor => a ^^^ b

def applyLong (op : Bitwise) (a b : Int64) : Int64 :=
  match op with
  | .and => a &&& b
  | .or => a ||| b
  | .xor => a ^^^ b

end Bitwise

namespace Shift

def applyInt (s : Shift) (a distance : Int32) : Int32 :=
  match s with
  | .left => a <<< distance
  | .arithmeticRight => a >>> distance
  | .logicalRight => (a.toUInt32 >>> distance.toUInt32).toInt32

def applyLong (s : Shift) (a : Int64) (distance : Int32) : Int64 :=
  match s with
  | .left => a <<< distance.toInt64
  | .arithmeticRight => a >>> distance.toInt64
  | .logicalRight => (a.toUInt64 >>> distance.toInt64.toUInt64).toInt64

end Shift

def signOf : Ordering → Int32
  | .lt => -1
  | .eq => 0
  | .gt => 1

def compareInts (a b : Int32) : Ordering := compare a.toInt b.toInt

def compareLongs (a b : Int64) : Ordering := compare a.toInt b.toInt

def Value.compare? : Value → Value → Option Ordering
  | .int a, .int b => some (compareInts a b)
  | .long a, .long b => some (compareLongs a b)
  | .float a, .float b => a.compare? b
  | .double a, .double b => a.compare? b
  | _, _ => none

def NaNPlace.sign (p : NaNPlace) : Option Ordering → Int32
  | some o => signOf o
  | none =>
      match p with
      | .below => -1
      | .above => 1

def Conversion.apply (c : Conversion) (v : Value) : Except Fault Value :=
  match c with
  | .i2l => v.asInt.map fun n => .long n.toInt64
  | .i2f => v.asInt.map fun n => .float (.ofInt32 n)
  | .i2d => v.asInt.map fun n => .double (.ofInt32 n)
  | .l2i => v.asLong.map fun n => .int n.toInt32
  | .l2f => v.asLong.map fun n => .float (.ofInt64 n)
  | .l2d => v.asLong.map fun n => .double (.ofInt64 n)
  | .f2i => v.asFloat.map fun x => .int x.toInt32
  | .f2l => v.asFloat.map fun x => .long x.toInt64
  | .f2d => v.asFloat.map fun x => .double x.toDouble
  | .d2i => v.asDouble.map fun x => .int x.toInt32
  | .d2l => v.asDouble.map fun x => .long x.toInt64
  | .d2f => v.asDouble.map fun x => .float x.toSingle
  | .i2b => v.asInt.map fun n => .int n.toInt8.toInt32
  | .i2c => v.asInt.map fun n => .int n.toUInt32.toUInt16.toUInt32.toInt32
  | .i2s => v.asInt.map fun n => .int n.toInt16.toInt32

namespace FrameM

def raiseExcept {α : Type} : Except Cause α → FrameM α
  | .ok a => pure a
  | .error cause => throw (.raise cause)

def arithmetic (op : Arithmetic) : Number → FrameM Unit
  | .int => do
      let b ← popInt
      let a ← popInt
      push (.int (← raiseExcept (op.applyInt a b)))
  | .long => do
      let b ← popLong
      let a ← popLong
      push (.long (← raiseExcept (op.applyLong a b)))
  | .float => do
      let b ← popFloat
      let a ← popFloat
      push (.float (op.applyFloat a b))
  | .double => do
      let b ← popDouble
      let a ← popDouble
      push (.double (op.applyDouble a b))

def negate : Number → FrameM Unit
  | .int => do push (.int (-(← popInt)))
  | .long => do push (.long (-(← popLong)))
  | .float => do push (.float (← popFloat).neg)
  | .double => do push (.double (← popDouble).neg)

def shift (s : Shift) : IntegerWidth → FrameM Unit
  | .int => do
      let distance ← popInt
      let a ← popInt
      push (.int (s.applyInt a distance))
  | .long => do
      let distance ← popInt
      let a ← popLong
      push (.long (s.applyLong a distance))

def bitwise (op : Bitwise) : IntegerWidth → FrameM Unit
  | .int => do
      let b ← popInt
      let a ← popInt
      push (.int (op.applyInt a b))
  | .long => do
      let b ← popLong
      let a ← popLong
      push (.long (op.applyLong a b))

def increment (slot : Nat) (delta : Int16) : FrameM Unit := do
  let n ← ofExcept (← load slot).asInt
  store slot (.int (n + delta.toInt32))

def convert (c : Conversion) : FrameM Unit := do
  push (← ofExcept (c.apply (← pop)))

def compareLong : FrameM Unit := do
  let b ← popLong
  let a ← popLong
  push (.int (signOf (compareLongs a b)))

def compareFloat (p : NaNPlace) : FrameM Unit := do
  let b ← popFloat
  let a ← popFloat
  push (.int (p.sign (a.compare? b)))

def compareDouble (p : NaNPlace) : FrameM Unit := do
  let b ← popDouble
  let a ← popDouble
  push (.int (p.sign (a.compare? b)))

end FrameM

end BytecodeMachine
