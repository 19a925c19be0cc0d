import BytecodeMachine.Descriptor
import BytecodeMachine.Ieee.Number

namespace BytecodeMachine

open Ieee

structure ObjectId where
  index : Nat
  deriving DecidableEq, Repr, Inhabited

inductive Value where
  | int (n : Int32)
  | long (n : Int64)
  | float (x : Single)
  | double (x : Double)
  | ref (r : Option ObjectId)
  deriving DecidableEq, Repr, Inhabited

inductive Kind where
  | int
  | long
  | float
  | double
  | reference
  deriving DecidableEq, Repr, Inhabited

namespace Kind

def name : Kind → String
  | .int => "int"
  | .long => "long"
  | .float => "float"
  | .double => "double"
  | .reference => "reference"

def letter : Kind → String
  | .int => "I"
  | .long => "L"
  | .float => "F"
  | .double => "D"
  | .reference => "A"

def width : Kind → Nat
  | .long | .double => 2
  | _ => 1

end Kind

namespace FieldType

def kind : FieldType → Kind
  | .base .long => .long
  | .base .float => .float
  | .base .double => .double
  | .base _ => .int
  | _ => .reference

theorem width_eq_width_kind (t : FieldType) : t.width = t.kind.width := by
  cases t with
  | base b => cases b <;> rfl
  | object _ => rfl
  | array _ => rfl

end FieldType

namespace Value

def null : Value := .ref none

def object (o : ObjectId) : Value := .ref (some o)

def kind : Value → Kind
  | .int _ => .int
  | .long _ => .long
  | .float _ => .float
  | .double _ => .double
  | .ref _ => .reference

def width (v : Value) : Nat := v.kind.width

def fits (v : Value) (t : FieldType) : Bool := v.kind = t.kind

def zero : Kind → Value
  | .int => .int 0
  | .long => .long 0
  | .float => .float .zero
  | .double => .double .zero
  | .reference => null

def default (t : FieldType) : Value := zero t.kind

@[simp] theorem kind_zero (k : Kind) : (zero k).kind = k := by
  cases k <;> rfl

theorem fits_default (t : FieldType) : (default t).fits t = true := by
  simp [fits, default]

theorem width_of_fits {v : Value} {t : FieldType} (h : v.fits t = true) : v.width = t.width := by
  simp only [fits, decide_eq_true_eq] at h
  rw [width, h, t.width_eq_width_kind]

theorem width_eq_one_or_two (v : Value) : v.width = 1 ∨ v.width = 2 := by
  cases v <;> simp [width, kind, Kind.width]

end Value

end BytecodeMachine
