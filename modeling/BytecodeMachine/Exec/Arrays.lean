import BytecodeMachine.Exec.Setup

namespace BytecodeMachine.Exec

def expectElements (i : Instruction) (e : ElementKind) (s : ArrayStorage) : Exec Unit :=
  if s.kind = e then pure () else fail (.elementKind i s.kind)

def arrayLoad (e : ElementKind) : Exec Unit := do
  let index ← inFrame .popInt
  let o ← inFrame (.popObject "array load")
  let s ← storage o
  expectElements (.arrayLoad e) e s
  push (← ofTrap (s.load index))

def checkElement (array : Object) (element : Option ObjectId) : Exec Unit := do
  match element, array.klass.component with
  | some o, some component =>
      let found ← classOf o
      if !found.isAssignable component then
        raise (.elementStored found.name array.klass.name)
  | _, _ => pure ()

def storeReference : Exec Unit := do
  let element ← inFrame .popReference
  let index ← inFrame .popInt
  let o ← inFrame (.popObject "array store")
  let array ← object o
  let s ← ofExcept array.storage
  expectElements (.arrayStore .reference) .reference s
  let _ ← ofTrap (s.checkIndex index)
  checkElement array element
  storeElement o index (.ref element)

def arrayStore (e : ElementKind) : Exec Unit := do
  match e with
  | .reference => storeReference
  | e =>
      let v ← inFrame .pop
      let index ← inFrame .popInt
      let o ← inFrame (.popObject "array store")
      expectElements (.arrayStore e) e (← storage o)
      storeElement o index v

def arrayLength : Exec Unit := do
  let o ← inFrame (.popObject "arraylength")
  push (.int (.ofNat (← storage o).length))

def newPrimitiveArray (b : BaseType) : Exec Unit := do
  let count ← inFrame .popInt
  if count < 0 then
    raise (.negativeSize count)
  let c ← arrayClass (.base b)
  push (.object (← newArray c count.toInt.toNat))

def newReferenceArray (n : ClassName) : Exec Unit := do
  let count ← inFrame .popInt
  let component ← resolveClass n
  if count < 0 then
    raise (.negativeSize count)
  match FieldType.ofClassName component.name with
  | .error e => fail (.badComponent n e)
  | .ok t =>
      let c ← arrayClass t
      push (.object (← newArray c count.toInt.toNat))

def depthOf (c : Class) : Nat :=
  match FieldType.parse c.name.text with
  | .ok t => t.depth
  | .error _ => 0

def asInts : List Value → Exec (List Int32)
  | [] => pure []
  | v :: rest => do
      let n ← ofExcept v.asInt
      pure (n :: (← asInts rest))

mutual

def newDimensions (c : Class) (count : Nat) (inner : List Nat) : Exec ObjectId := do
  let array ← newArray c count
  match inner with
  | [] => pure array
  | size :: rest =>
      match c.component with
      | none => fail (.noArrayComponents c.name)
      | some component =>
          fillDimensions array component size rest 0 count
          pure array
termination_by (inner.length, 0, 0)

def fillDimensions (array : ObjectId) (component : Class) (size : Nat) (inner : List Nat)
    (index : Nat) (left : Nat) : Exec Unit :=
  match left with
  | 0 => pure ()
  | left + 1 => do
      let element ← newDimensions component size inner
      storeElement array (.ofNat index) (.object element)
      fillDimensions array component size inner (index + 1) left
termination_by (inner.length, 1, left)

end

def newMultiArray (n : ClassName) (dimensions : Nat) : Exec Unit := do
  let c ← resolveClass n
  if dimensions = 0 || depthOf c < dimensions then
    fail (.dimensions c.name dimensions)
  let counts ← asInts (← inFrame (.popMany dimensions))
  match counts.find? (· < 0) with
  | some count => raise (.negativeSize count)
  | none =>
      match counts.map fun n => n.toInt.toNat with
      | [] => fail .noDimensions
      | count :: inner => push (.object (← newDimensions c count inner))

end BytecodeMachine.Exec
