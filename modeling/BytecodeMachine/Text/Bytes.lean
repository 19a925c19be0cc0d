import BytecodeMachine.Text.Units

/-!
Text as bytes of one to four per character. Decoding never fails: the longest start of a character at
a place that none begins becomes one replacement character.
-/

namespace BytecodeMachine.Text

def bytes (s : String) : List UInt8 :=
  s.toUTF8.data.toList

/-- Bounds on the second byte, how many bytes follow the first, and the bits the first one holds. -/
def leadByte (b : UInt8) : Option (Nat × Nat × Nat × Nat) :=
  let n := b.toNat
  if 0xC2 ≤ n && n ≤ 0xDF then some (0x80, 0xBF, 1, n - 0xC0)
  else if n = 0xE0 then some (0xA0, 0xBF, 2, 0)
  else if n = 0xED then some (0x80, 0x9F, 2, 0xD)
  else if 0xE1 ≤ n && n ≤ 0xEF then some (0x80, 0xBF, 2, n - 0xE0)
  else if n = 0xF0 then some (0x90, 0xBF, 3, 0)
  else if n = 0xF4 then some (0x80, 0x8F, 3, 4)
  else if 0xF1 ≤ n && n ≤ 0xF3 then some (0x80, 0xBF, 3, n - 0xF0)
  else none

structure Partial where
  low : Nat
  high : Nat
  due : Nat
  bits : Nat

def decodeFrom : Option Partial → List UInt8 → List Char
  | none, [] => []
  | some _, [] => [replacement]
  | none, b :: bs =>
      if b.toNat < 0x80 then Char.ofNat b.toNat :: decodeFrom none bs
      else match leadByte b with
        | none => replacement :: decodeFrom none bs
        | some (low, high, due, bits) => decodeFrom (some ⟨low, high, due, bits⟩) bs
  | some p, b :: bs =>
      if p.low ≤ b.toNat && b.toNat ≤ p.high then
        let bits := p.bits * 0x40 + (b.toNat - 0x80)
        if p.due ≤ 1 then Char.ofNat bits :: decodeFrom none bs
        else decodeFrom (some ⟨0x80, 0xBF, p.due - 1, bits⟩) bs
      else if b.toNat < 0x80 then replacement :: Char.ofNat b.toNat :: decodeFrom none bs
      else match leadByte b with
        | none => replacement :: replacement :: decodeFrom none bs
        | some (low, high, due, bits) => replacement :: decodeFrom (some ⟨low, high, due, bits⟩) bs

def ofBytes (bs : List UInt8) : String :=
  String.ofList (decodeFrom none bs)

end BytecodeMachine.Text
