import BytecodeMachine.Decimal.Shortest

namespace BytecodeMachine.Ieee

structure Format where
  fraction : Nat
  exponent : Nat

namespace Format

def single : Format := ⟨23, 8⟩

def double : Format := ⟨52, 11⟩

variable (f : Format)

def top : Nat := Nat.pow 2 f.exponent - 1

def bias : Nat := Nat.pow 2 (f.exponent - 1) - 1

def signBit : Nat := Nat.pow 2 (f.fraction + f.exponent)

def isNegative (bits : Nat) : Bool := f.signBit ≤ bits

def magnitude (bits : Nat) : Nat := bits % f.signBit

def leastMantissa : Nat := Nat.pow 2 f.fraction

def fractionOf (bits : Nat) : Nat := bits % f.leastMantissa

def exponentOf (bits : Nat) : Nat := f.magnitude bits / f.leastMantissa

def infinity : Nat := f.top * f.leastMantissa

def nan : Nat := f.infinity + Nat.pow 2 (f.fraction - 1)

def isNaN (bits : Nat) : Bool := f.infinity < f.magnitude bits

def isInfinite (bits : Nat) : Bool := f.magnitude bits = f.infinity

def isZero (bits : Nat) : Bool := f.magnitude bits = 0

def leastExponent : Int := 1 - (f.bias : Int) - f.fraction

def parts (bits : Nat) : Nat × Int :=
  let e := f.exponentOf bits
  if e = 0 then (f.fractionOf bits, f.leastExponent)
  else (f.leastMantissa + f.fractionOf bits, f.leastExponent + (e - 1 : Nat))

def compose (m : Nat) (q : Int) : Nat :=
  if m = 0 then 0
  else
    let spare : Int := (f.fraction : Int) - m.log2
    let shift := min spare (q - f.leastExponent)
    let m := if shift < 0 then m / Nat.pow 2 (-shift).toNat else m * Nat.pow 2 shift.toNat
    let q := q - shift
    if m < f.leastMantissa then m
    else (q - f.leastExponent + 1).toNat * f.leastMantissa + (m - f.leastMantissa)

def withSign (negative : Bool) (magnitude : Nat) : Nat :=
  if negative then f.signBit + magnitude else magnitude

def negate (bits : Nat) : Nat :=
  f.withSign (!f.isNegative bits) (f.magnitude bits)

/-- What is left of the left number after taking away the right one a whole number of times, without
rounding; it has the sign of the left number. -/
def remainder (a b : Nat) : Nat :=
  if f.isNaN a || f.isNaN b || f.isInfinite a || f.isZero b then f.nan
  else if f.isInfinite b || f.isZero a then a
  else
    let (ma, qa) := f.parts a
    let (mb, qb) := f.parts b
    let q := min qa qb
    let r := (ma * Nat.pow 2 (qa - q).toNat) % (mb * Nat.pow 2 (qb - q).toNat)
    f.withSign (f.isNegative a) (f.compose r q)

/-- Numbers in order; both zeros are one number, and a number that is none has no place. -/
def order (bits : Nat) : Option Int :=
  if f.isNaN bits then none
  else if f.isNegative bits then some (-(f.magnitude bits : Int))
  else some (f.magnitude bits)

def compare? (a b : Nat) : Option Ordering :=
  match f.order a, f.order b with
  | some x, some y => some (compare x y)
  | _, _ => none

def binary (bits : Nat) : Decimal.Binary :=
  let (m, q) := f.parts bits
  ⟨m, q, f.fractionOf bits = 0 && 1 < f.exponentOf bits⟩

/-- Numbers from a ten-thousandth up to ten to the sixteenth are written in positions. -/
def layout : Decimal.Layout := ⟨-4, 15⟩

def text (bits : Nat) : String :=
  let sign := if f.isNegative bits then "-" else ""
  if f.isNaN bits then "NaN"
  else if f.isInfinite bits then sign ++ "inf"
  else if f.isZero bits then sign ++ "0.0"
  else sign ++ (f.binary bits).shortest.render layout

end Format

end BytecodeMachine.Ieee
