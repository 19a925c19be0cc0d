import BytecodeMachine.Ieee.Format

/-!
Single and double numbers, held as their bits, so that equality tells all bit patterns apart.
-/

namespace BytecodeMachine.Ieee

structure Single where
  bits : UInt32
  deriving DecidableEq, Repr, Inhabited

structure Double where
  bits : UInt64
  deriving DecidableEq, Repr, Inhabited

namespace Single

def ofFloat (x : Float32) : Single := ⟨x.toBits⟩

def toFloat (x : Single) : Float32 := Float32.ofBits x.bits

def zero : Single := ⟨0⟩

def add (a b : Single) : Single := ofFloat (a.toFloat + b.toFloat)

def sub (a b : Single) : Single := ofFloat (a.toFloat - b.toFloat)

def mul (a b : Single) : Single := ofFloat (a.toFloat * b.toFloat)

def div (a b : Single) : Single := ofFloat (a.toFloat / b.toFloat)

def rem (a b : Single) : Single :=
  ⟨(Format.single.remainder a.bits.toNat b.bits.toNat).toUInt32⟩

def neg (a : Single) : Single := ⟨(Format.single.negate a.bits.toNat).toUInt32⟩

def compare? (a b : Single) : Option Ordering :=
  Format.single.compare? a.bits.toNat b.bits.toNat

def text (a : Single) : String := Format.single.text a.bits.toNat

end Single

namespace Double

def ofFloat (x : Float) : Double := ⟨x.toBits⟩

def toFloat (x : Double) : Float := Float.ofBits x.bits

def zero : Double := ⟨0⟩

def add (a b : Double) : Double := ofFloat (a.toFloat + b.toFloat)

def sub (a b : Double) : Double := ofFloat (a.toFloat - b.toFloat)

def mul (a b : Double) : Double := ofFloat (a.toFloat * b.toFloat)

def div (a b : Double) : Double := ofFloat (a.toFloat / b.toFloat)

def rem (a b : Double) : Double :=
  ⟨(Format.double.remainder a.bits.toNat b.bits.toNat).toUInt64⟩

def neg (a : Double) : Double := ⟨(Format.double.negate a.bits.toNat).toUInt64⟩

def compare? (a b : Double) : Option Ordering :=
  Format.double.compare? a.bits.toNat b.bits.toNat

def text (a : Double) : String := Format.double.text a.bits.toNat

end Double

/-- Conversions between the two widths and with integers. To an integer they cut toward zero, stop at
the ends of the range, and take what is no number to zero. -/
def Single.toDouble (a : Single) : Double := .ofFloat a.toFloat.toFloat

def Double.toSingle (a : Double) : Single := .ofFloat a.toFloat.toFloat32

def Single.toInt32 (a : Single) : Int32 := a.toFloat.toInt32

def Single.toInt64 (a : Single) : Int64 := a.toFloat.toInt64

def Double.toInt32 (a : Double) : Int32 := a.toFloat.toInt32

def Double.toInt64 (a : Double) : Int64 := a.toFloat.toInt64

def Single.ofInt32 (n : Int32) : Single := .ofFloat n.toFloat32

def Single.ofInt64 (n : Int64) : Single := .ofFloat n.toFloat32

def Double.ofInt32 (n : Int32) : Double := .ofFloat n.toFloat

def Double.ofInt64 (n : Int64) : Double := .ofFloat n.toFloat

end BytecodeMachine.Ieee
