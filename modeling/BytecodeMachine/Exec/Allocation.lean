import BytecodeMachine.Exec

namespace BytecodeMachine

def headerBytes : Nat := 16

def FieldType.elementBytes : FieldType → Nat
  | .base .boolean | .base .byte => 1
  | .base .char | .base .short => 2
  | .base .int | .base .float => 4
  | _ => 8

def Class.isInstantiable (c : Class) : Bool :=
  !c.isInterface && !c.isAbstract && c.shape = .regular

namespace Exec

def newObject (c : Class) : Exec ObjectId :=
  act (·.alloc (.instanceOf c) (headerBytes + 8 * c.layout.length))

def allocateInstance (e : Engine) (c : Class) : Exec ObjectId := do
  if !c.isInstantiable then
    raise (.notInstantiable c.name)
  e.setUp c
  newObject c

/-- Estimates are words of 64 bits, and stay at the greatest one. -/
def mostBytes : Nat := 18446744073709551615

def arrayBytes (c : Class) (length : Nat) : Nat :=
  min mostBytes (headerBytes + (c.componentType?.map (·.elementBytes)).getD 8 * length)

def newArray (c : Class) (length : Nat) : Exec ObjectId := do
  let bytes := arrayBytes c length
  let most ← read (·.settings.memoryMax)
  if most < bytes then
    note (.tooLarge c.name length bytes most)
    raise (.tooLarge length c.name)
  match c.componentType? with
  | none => fail (.notArrayClass c.name)
  | some t => act (·.alloc (.ofStorage c (.new t length)) bytes)

def arrayOf (component : FieldType) (s : ArrayStorage) : Exec ObjectId := do
  let c ← arrayClass component
  act (·.alloc (.ofStorage c s) (headerBytes + 8 * s.length))

def storage (o : ObjectId) : Exec ArrayStorage := do
  ofExcept (← object o).storage

def field (o : ObjectId) (slot : Nat) : Exec Value := do
  ofExcept ((← object o).field slot)

def setField (o : ObjectId) (slot : Nat) (v : Value) : Exec Unit := do
  let _ ← field o slot
  update fun m => { m with heap := m.heap.modify o (·.setField slot v) }

def storeElement (o : ObjectId) (index : Int32) (v : Value) : Exec Unit := do
  let i ← ofTrap ((← storage o).checkStore index v)
  update fun m => { m with heap := m.heap.modify o (·.setElement i v) }

end Exec

end BytecodeMachine
