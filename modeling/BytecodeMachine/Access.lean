namespace BytecodeMachine

inductive Visibility where
  | world
  | family
  | package
  | own
  deriving DecidableEq, Repr

def Visibility.listing : Visibility → String
  | .world => "Public"
  | .family => "Protected"
  | .package => "PackagePrivate"
  | .own => "Private"

namespace Flag

def isPublic : UInt16 := 0x0001
def isPrivate : UInt16 := 0x0002
def isProtected : UInt16 := 0x0004
def isStatic : UInt16 := 0x0008
def isFinal : UInt16 := 0x0010
def isSuper : UInt16 := 0x0020
def isNative : UInt16 := 0x0100
def isInterface : UInt16 := 0x0200
def isAbstract : UInt16 := 0x0400

end Flag

def has (bits flag : UInt16) : Bool :=
  bits &&& flag = flag

def visibilityOf (bits : UInt16) : Visibility :=
  if has bits Flag.isPublic then .world
  else if has bits Flag.isProtected then .family
  else if has bits Flag.isPrivate then .own
  else .package

structure ClassAccess where
  bits : UInt16
  deriving DecidableEq, Repr, Inhabited

structure MethodAccess where
  bits : UInt16
  deriving DecidableEq, Repr, Inhabited

structure FieldAccess where
  bits : UInt16
  deriving DecidableEq, Repr, Inhabited

namespace ClassAccess

def known : UInt16 := 0x7631

def ofBits (bits : UInt16) : ClassAccess := ⟨bits &&& known⟩

def isPublic (a : ClassAccess) : Bool := has a.bits Flag.isPublic
def isInterface (a : ClassAccess) : Bool := has a.bits Flag.isInterface
def isAbstract (a : ClassAccess) : Bool := has a.bits Flag.isAbstract

def plain : ClassAccess := ⟨Flag.isPublic ||| Flag.isSuper⟩

end ClassAccess

namespace MethodAccess

def known : UInt16 := 0x1dff

def ofBits (bits : UInt16) : MethodAccess := ⟨bits &&& known⟩

def isStatic (a : MethodAccess) : Bool := has a.bits Flag.isStatic
def isNative (a : MethodAccess) : Bool := has a.bits Flag.isNative
def isAbstract (a : MethodAccess) : Bool := has a.bits Flag.isAbstract
def isPrivate (a : MethodAccess) : Bool := has a.bits Flag.isPrivate
def visibility (a : MethodAccess) : Visibility := visibilityOf a.bits

end MethodAccess

namespace FieldAccess

def known : UInt16 := 0x50df

def ofBits (bits : UInt16) : FieldAccess := ⟨bits &&& known⟩

def isStatic (a : FieldAccess) : Bool := has a.bits Flag.isStatic
def isFinal (a : FieldAccess) : Bool := has a.bits Flag.isFinal
def visibility (a : FieldAccess) : Visibility := visibilityOf a.bits

end FieldAccess

end BytecodeMachine
