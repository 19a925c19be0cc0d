namespace BytecodeMachine.Text

def replacement : Char := '\uFFFD'

def units : List Char → List UInt16
  | [] => []
  | c :: cs =>
      let n := c.toNat
      if n < 0x10000 then n.toUInt16 :: units cs
      else
        (0xD800 + (n - 0x10000) / 0x400).toUInt16
          :: (0xDC00 + (n - 0x10000) % 0x400).toUInt16 :: units cs

def isHigh (u : UInt16) : Bool :=
  0xD800 ≤ u.toNat && u.toNat < 0xDC00

def isLow (u : UInt16) : Bool :=
  0xDC00 ≤ u.toNat && u.toNat < 0xE000

def pair (high low : UInt16) : Char :=
  Char.ofNat (0x10000 + (high.toNat - 0xD800) * 0x400 + (low.toNat - 0xDC00))

def single (u : UInt16) : Char :=
  if isHigh u || isLow u then replacement else Char.ofNat u.toNat

def chars : List UInt16 → List Char
  | [] => []
  | [u] => [single u]
  | u :: v :: rest =>
      if isHigh u && isLow v then pair u v :: chars rest
      else single u :: chars (v :: rest)

end BytecodeMachine.Text
