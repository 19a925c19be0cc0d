import BytecodeMachine.ClassTable

namespace BytecodeMachine

/-- The class to which the visibility of an array comes down. -/
def Class.innermost (c : Class) : Class :=
  match c with
  | ⟨n, s, i, k, a, src, sh, f, m, l⟩ => ofComponent ⟨n, s, i, k, a, src, sh, f, m, l⟩ k
where
  ofComponent (outer : Class) : Option Class → Class
    | none => outer
    | some c => innermost c

def Class.seesClass (context target : Class) : Bool :=
  target.isPublic || context.name = .object || context.name = .klass
    || context.name = target.name || context.isSubclassOf target || context.samePackage target

def Class.seesMember (context owner : Class) : Visibility → Bool
  | .world => true
  | .family =>
      context.name = owner.name || context.isSubclassOf owner || context.samePackage owner
  | .package => context.name = owner.name || context.samePackage owner
  | .own => context.name = owner.name

/-- Resolution may load classes, even where it fails. -/
abbrev Resolving := ExceptT LinkError (StateM ClassTable)

namespace Resolving

def loadClass (libraries : List Library) (n : ClassName) : Resolving Class :=
  fun table => ClassTable.load libraries [] n table

def checkClass (target : Class) : Option Class → Resolving Unit
  | none => pure ()
  | some context =>
      let inner := target.innermost
      if context.seesClass inner then pure ()
      else throw (.illegalAccess inner.name.text context.name)

def checkMember (owner : Class) (v : Visibility) (member : String) : Option Class → Resolving Unit
  | none => pure ()
  | some context =>
      if context.seesMember owner v then pure ()
      else throw (.illegalAccess member context.name)

def resolveClass (libraries : List Library) (n : ClassName) (context : Option Class) :
    Resolving Class := do
  let c ← loadClass libraries n
  checkClass c context
  pure c

def arrayClass (libraries : List Library) (component : FieldType) : Resolving Class :=
  match (FieldType.array component).className? with
  | some n => loadClass libraries n
  | none => throw (.malformed .object (.badComponent component))

def resolveField (libraries : List Library) (f : FieldRef) (context : Option Class) :
    Resolving (Class × Field) := do
  let c ← resolveClass libraries f.klass context
  match c.lookupField? f.name with
  | none => throw (.noSuchField f)
  | some field =>
      if field.type ≠ f.type then throw (.noSuchField f)
      let owner ← loadClass libraries field.owner
      checkMember owner field.access.visibility field.text context
      pure (owner, field)

def resolveMethod (libraries : List Library) (m : MethodRef) (context : Option Class) :
    Resolving (Class × Method) := do
  let c ← resolveClass libraries m.klass context
  match c.lookupMethod? m.name m.type with
  | none => throw (.noSuchMethod m)
  | some method =>
      let owner ← loadClass libraries method.owner
      checkMember owner method.access.visibility method.text context
      pure (owner, method)

end Resolving

end BytecodeMachine
