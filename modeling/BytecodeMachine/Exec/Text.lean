import BytecodeMachine.Exec.Call
import BytecodeMachine.Text.Units

namespace BytecodeMachine

namespace Machine

def storage? (m : Machine) (o : ObjectId) : Except Fault ArrayStorage :=
  match m.heap.get? o with
  | some object => object.storage
  | none => .error .noSuchObject

def unitsOf (m : Machine) (o : ObjectId) : Except Fault (List UInt16) := do
  let object ← match m.heap.get? o with
    | some object => .ok object
    | none => .error Fault.noSuchObject
  if object.klass.name ≠ .string then
    throw (.notString object.klass.name)
  let slot ← match (object.klass.declaredField? .value).bind (·.slot) with
    | some slot => .ok slot
    | none => .error Fault.noStringValue
  match ← (← object.field slot).asReference with
  | none => pure []
  | some chars =>
      let s ← m.storage? chars
      match s.chars? with
      | some units => pure units
      | none => throw (.stringBacking s.kind)

def stringValue (m : Machine) (o : ObjectId) : Except Fault String := do
  pure (String.ofList (Text.chars (← m.unitsOf o)))

def throwableMessage? (m : Machine) (o : ObjectId) : Option String := do
  let object ← m.heap.get? o
  let f ← object.klass.lookupField? .message
  if f.owner ≠ .throwable then
    none
  let r ← (object.field (← f.slot) >>= Value.asReference).toOption
  (m.stringValue (← r)).toOption

def unbox (m : Machine) (o : ObjectId) : Except Fault Value := do
  let object ← match m.heap.get? o with
    | some object => .ok object
    | none => .error Fault.noSuchObject
  match object.klass.declaredField? .value with
  | some f =>
      if f.type.isReference then throw (.notBox object.klass.name)
      else object.field (f.slot.getD 0)
  | none => throw (.notBox object.klass.name)

end Machine

namespace Exec

def stringValue (o : ObjectId) : Exec String := do
  ofExcept (← read (·.stringValue o))

def throwableMessage? (o : ObjectId) : Exec (Option String) :=
  read (·.throwableMessage? o)

def newStringOfUnits (e : Engine) (units : List UInt16) : Exec ObjectId := do
  let chars ← arrayOf (.base .char) (.ofChars units)
  let c ← loadClass .string
  e.setUp c
  match c.declaredMethod? .constructor (.void [.chars]) with
  | none => fail .noStringConstructor
  | some constructor =>
      let o ← newObject c
      let _ ← invokeMethod e c constructor [.object o, .object chars]
      pure o

def newString (e : Engine) (text : String) : Exec ObjectId :=
  newStringOfUnits e (Text.units text.toList)

def intern (e : Engine) (text : String) : Exec ObjectId :=
  locked do
    match ← read (·.interned.get? text) with
    | some o => pure o
    | none =>
        let o ← newString e text
        act (·.keep text o)

def classObject (e : Engine) (n : ClassName) : Exec ObjectId :=
  locked do
    match ← read (·.classObjects.get? n) with
    | some o => pure o
    | none =>
        let _ ← loadClass n
        let c ← loadClass .klass
        e.setUp c
        let o ← newObject c
        act (·.enroll n o)

def classNameOf? (o : ObjectId) : Exec (Option ClassName) :=
  locked (read (·.classNameOf? o))

/-- A box around a value, made without its constructor. -/
def box (e : Engine) (n : ClassName) (v : Value) : Exec ObjectId := do
  let c ← loadClass n
  e.setUp c
  match c.declaredField? .value with
  | none => fail (.notBoxClass n)
  | some f =>
      if !v.fits f.type then
        fail (.cannotBox v.kind n)
      let o ← newObject c
      setField o (f.slot.getD 0) v
      pure o

def unbox (o : ObjectId) : Exec Value := do
  ofExcept (← read (·.unbox o))

def storeStrings (e : Engine) (array : ObjectId) : Nat → List (Option String) → Exec Unit
  | _, [] => pure ()
  | i, none :: rest => storeStrings e array (i + 1) rest
  | i, some text :: rest => do
      let o ← newString e text
      storeElement array (.ofNat i) (.object o)
      storeStrings e array (i + 1) rest

def newStringArray (e : Engine) (texts : List (Option String)) : Exec ObjectId := do
  let c ← arrayClass .string
  let array ← newArray c texts.length
  storeStrings e array 0 texts
  pure array

def newThrowable (e : Engine) (n : ClassName) (message : String) : Exec ObjectId := do
  let c ← loadClass n
  e.setUp c
  match c.declaredMethod? .constructor (.void [.string]) with
  | none => fail (.noMessageConstructor c.name)
  | some constructor =>
      let o ← newObject c
      let text ← newString e message
      let _ ← invokeMethod e c constructor [.object o, .object text]
      pure o

def materialize (e : Engine) (cause : Cause) : Exec ObjectId :=
  newThrowable e cause.condition.className cause.message

end Exec

end BytecodeMachine
