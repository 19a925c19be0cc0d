import BytecodeMachine.Exec.Setup

namespace BytecodeMachine

def Field.ref (f : Field) : FieldRef := ⟨f.owner, f.name, f.type⟩

namespace Exec

def loadConstant (e : Engine) (c : Constant) : Exec Unit := do
  match c with
  | .numeral n => push n.value
  | .string text => push (.object (← intern e text))
  | .klass n =>
      let c ← resolveClass n
      push (.object (← classObject e c.name))

def checkFinalWrite (f : Field) (initializer : MemberName) : Exec Unit := do
  let within := (← get).activation?.any fun a =>
    a.method.name = initializer && a.klass.name = f.owner
  if f.isFinal && !within then
    raise (.finalWrite f.ref initializer)

def checkStored (f : Field) (v : Value) : Exec Unit :=
  if v.fits f.type then pure () else fail (.storedKind v.kind f.ref)

def getStatic (e : Engine) (ref : FieldRef) : Exec Unit := do
  let (c, f) ← resolveField ref
  if !f.isStatic then
    raise (.fieldNotStatic f.ref)
  e.setUp c
  push (← static f)

def putStatic (e : Engine) (ref : FieldRef) : Exec Unit := do
  let (c, f) ← resolveField ref
  if !f.isStatic then
    raise (.fieldNotStatic f.ref)
  checkFinalWrite f .staticInitializer
  e.setUp c
  let v ← inFrame .pop
  checkStored f v
  setStatic f v

def getField (ref : FieldRef) : Exec Unit := do
  let (c, f) ← resolveField ref
  if f.isStatic then
    raise (.fieldStatic f.ref)
  let o ← inFrame (.popObject "getfield")
  let found ← classOf o
  if !found.isAssignable c then
    fail (.readFrom f.ref found.name)
  push (← field o (f.slot.getD 0))

def putField (ref : FieldRef) : Exec Unit := do
  let (c, f) ← resolveField ref
  if f.isStatic then
    raise (.fieldStatic f.ref)
  checkFinalWrite f .constructor
  let v ← inFrame .pop
  let o ← inFrame (.popObject "putfield")
  let found ← classOf o
  if !found.isAssignable c then
    fail (.writtenTo f.ref found.name)
  checkStored f v
  setField o (f.slot.getD 0) v

def newInstance (e : Engine) (n : ClassName) : Exec Unit := do
  let c ← resolveClass n
  push (.object (← allocateInstance e c))

def topReference : Exec (Option ObjectId) := do
  match ← inFrame (do pure (← get).stack.head?) with
  | some (.ref r) => pure r
  | some v => fail (.castOf v.kind)
  | none => fail .stackUnderflow

def checkCast (n : ClassName) : Exec Unit := do
  let c ← resolveClass n
  match ← topReference with
  | none => pure ()
  | some o =>
      let found ← classOf o
      if !found.isAssignable c then
        raise (.cast found.name c.name)

def instanceOf (n : ClassName) : Exec Unit := do
  let c ← resolveClass n
  match ← inFrame .popReference with
  | none => push (.int 0)
  | some o =>
      let found ← classOf o
      push (.int (if found.isAssignable c then 1 else 0))

end Exec

end BytecodeMachine
