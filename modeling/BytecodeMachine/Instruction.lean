import BytecodeMachine.Value

namespace BytecodeMachine

open Ieee

/-- A test on the order of two numbers; a number without a place in the order only satisfies `ne`. -/
inductive Comparison where
  | eq
  | ne
  | lt
  | ge
  | gt
  | le
  deriving DecidableEq, Repr, Inhabited

namespace Comparison

def all : List Comparison := [eq, ne, lt, ge, gt, le]

def holds : Comparison → Option Ordering → Bool
  | .eq, o => o = some .eq
  | .ne, o => o ≠ some .eq
  | .lt, o => o = some .lt
  | .ge, o => o = some .gt || o = some .eq
  | .gt, o => o = some .gt
  | .le, o => o = some .lt || o = some .eq

def negate : Comparison → Comparison
  | .eq => .ne
  | .ne => .eq
  | .lt => .ge
  | .ge => .lt
  | .gt => .le
  | .le => .gt

end Comparison

inductive EqTest where
  | eq
  | ne
  deriving DecidableEq, Repr, Inhabited

def EqTest.holds : EqTest → Bool → Bool
  | .eq, same => same
  | .ne, same => !same

/-- Where a floating comparison puts what is no number: below or above all else. -/
inductive NaNPlace where
  | below
  | above
  deriving DecidableEq, Repr, Inhabited

inductive Arithmetic where
  | add
  | sub
  | mul
  | div
  | rem
  deriving DecidableEq, Repr, Inhabited

inductive Bitwise where
  | and
  | or
  | xor
  deriving DecidableEq, Repr, Inhabited

inductive Shift where
  | left
  | arithmeticRight
  | logicalRight
  deriving DecidableEq, Repr, Inhabited

inductive Number where
  | int
  | long
  | float
  | double
  deriving DecidableEq, Repr, Inhabited

inductive IntegerWidth where
  | int
  | long
  deriving DecidableEq, Repr, Inhabited

inductive Conversion where
  | i2l | i2f | i2d
  | l2i | l2f | l2d
  | f2i | f2l | f2d
  | d2i | d2l | d2f
  | i2b | i2c | i2s
  deriving DecidableEq, Repr, Inhabited

inductive Shuffle where
  | pop
  | pop2
  | dup
  | dupX1
  | dupX2
  | dup2
  | dup2X1
  | dup2X2
  | swap
  deriving DecidableEq, Repr, Inhabited

/-- Families of array elements; bytes and booleans are one family. -/
inductive ElementKind where
  | byte
  | char
  | short
  | int
  | long
  | float
  | double
  | reference
  deriving DecidableEq, Repr, Inhabited

inductive InvokeKind where
  | virtual
  | special
  | static
  | interface
  deriving DecidableEq, Repr, Inhabited

inductive Numeral where
  | int (n : Int32)
  | long (n : Int64)
  | float (x : Single)
  | double (x : Double)
  deriving DecidableEq, Repr, Inhabited

def Numeral.value : Numeral → Value
  | .int n => .int n
  | .long n => .long n
  | .float x => .float x
  | .double x => .double x

inductive Constant where
  | numeral (n : Numeral)
  | string (s : String)
  | klass (n : ClassName)
  deriving DecidableEq, Repr, Inhabited

structure FieldRef where
  klass : ClassName
  name : MemberName
  type : FieldType
  deriving DecidableEq, Repr, Inhabited

structure MethodRef where
  klass : ClassName
  name : MemberName
  type : MethodType
  deriving DecidableEq, Repr, Inhabited

def MethodRef.text (m : MethodRef) : String :=
  m.klass.text ++ "." ++ m.name.text ++ m.type.text

inductive Instruction where
  | nop
  | nullConst
  | const (n : Numeral)
  | ldc (c : Constant)
  | load (k : Kind) (slot : Nat)
  | store (k : Kind) (slot : Nat)
  | arrayLoad (e : ElementKind)
  | arrayStore (e : ElementKind)
  | shuffle (s : Shuffle)
  | arithmetic (op : Arithmetic) (n : Number)
  | negate (n : Number)
  | shift (s : Shift) (w : IntegerWidth)
  | bitwise (op : Bitwise) (w : IntegerWidth)
  | increment (slot : Nat) (delta : Int16)
  | convert (c : Conversion)
  | compareLong
  | compareFloat (p : NaNPlace)
  | compareDouble (p : NaNPlace)
  | ifZero (c : Comparison) (target : Nat)
  | ifInts (c : Comparison) (target : Nat)
  | ifSame (t : EqTest) (target : Nat)
  | ifNull (t : EqTest) (target : Nat)
  | goto (target : Nat)
  | tableSwitch (default : Nat) (low : Int32) (targets : List Nat)
  | lookupSwitch (default : Nat) (targets : List (Int32 × Nat))
  | returnValue (k : Kind)
  | returnVoid
  | getStatic (f : FieldRef)
  | putStatic (f : FieldRef)
  | getField (f : FieldRef)
  | putField (f : FieldRef)
  | invoke (k : InvokeKind) (m : MethodRef)
  | new (n : ClassName)
  | newArray (b : BaseType)
  | newReferenceArray (n : ClassName)
  | newMultiArray (n : ClassName) (dimensions : Nat)
  | arrayLength
  | throw
  | checkCast (n : ClassName)
  | instanceOf (n : ClassName)
  | monitorEnter
  | monitorExit
  deriving DecidableEq, Repr, Inhabited

end BytecodeMachine
