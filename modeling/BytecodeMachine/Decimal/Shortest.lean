/-!
The shortest decimal that reads back as a given binary number: on ever finer decimal grids, the first
grid point in the interval of reals that round to the number. Of two such points the nearer is taken,
and the upper one at a tie.
-/

namespace BytecodeMachine.Decimal

/-- A positive binary number `mantissa * 2 ^ exponent`. `tight` says that the number below it is only
half as far away as the number above it. -/
structure Binary where
  mantissa : Nat
  exponent : Int
  tight : Bool

structure Scientific where
  digits : Nat
  exponent : Int
  deriving DecidableEq, Repr

def natPow (base : Nat) (e : Int) : Nat :=
  Nat.pow base e.toNat

/-- Quarters of the unit in the last place: the number itself, the least real that rounds to it, and
the greatest. -/
def Binary.quarters (b : Binary) : Nat × Nat × Nat :=
  let v := 4 * b.mantissa
  (v, v - (if b.tight then 1 else 2), v + 2)

def Binary.onGrid (b : Binary) (e : Int) : Option Nat :=
  let (v, low, high) := b.quarters
  let scale := natPow 2 (b.exponent - 2) * natPow 10 (-e)
  let unit := natPow 2 (2 - b.exponent) * natPow 10 e
  let closed := b.mantissa % 2 = 0
  let c := v * scale / unit
  let inside := fun x : Nat =>
    if closed then low * scale ≤ x && x ≤ high * scale
    else low * scale < x && x < high * scale
  let down := c ≠ 0 && inside (c * unit)
  let up := inside ((c + 1) * unit)
  if up && (!down || (c + 1) * unit - v * scale ≤ v * scale - c * unit) then some (c + 1)
  else if down then some c
  else none

def Binary.search (b : Binary) : Nat → Int → Scientific
  | 0, e => ⟨0, e⟩
  | fuel + 1, e =>
      match b.onGrid e with
      | some c => ⟨c, e⟩
      | none => b.search fuel (e - 1)

/-- A power of ten above the number: three tenths of its binary length, rounded up. -/
def Binary.ceiling (b : Binary) : Int :=
  ((b.mantissa.log2 : Int) + 1 + b.exponent) * 30103 / 100000 + 1

/-- Twenty grids are enough, since seventeen digits always read back. -/
def Binary.shortest (b : Binary) : Scientific :=
  b.search 20 b.ceiling

/-- How a decimal is laid out: from `least` to `greatest` power of the leading digit in positions, and
with an exponent outside. -/
structure Layout where
  least : Int
  greatest : Int

def zeros (n : Int) : List Char :=
  List.replicate n.toNat '0'

def Scientific.render (layout : Layout) (d : Scientific) : String :=
  let ds := Nat.toDigits 10 d.digits
  let lead : Int := d.exponent + ds.length - 1
  if layout.least ≤ lead && lead ≤ layout.greatest then
    if 0 ≤ d.exponent then String.ofList (ds ++ zeros d.exponent) ++ ".0"
    else if 0 ≤ lead then
      String.ofList (ds.take (lead + 1).toNat) ++ "." ++ String.ofList (ds.drop (lead + 1).toNat)
    else "0." ++ String.ofList (zeros (-lead - 1) ++ ds)
  else
    let head := String.ofList (ds.take 1)
    let tail := ds.drop 1
    head ++ (if tail.isEmpty then "" else "." ++ String.ofList tail) ++ "e" ++ toString lead

end BytecodeMachine.Decimal
