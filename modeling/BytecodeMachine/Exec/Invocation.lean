import BytecodeMachine.Exec.Call

namespace BytecodeMachine.Exec

def receiverOf (m : Method) : List Value → Exec ObjectId
  | .ref (some o) :: _ => pure o
  | .ref none :: _ => raise (.nullReceiver m.text)
  | _ => fail (.noReceiver m.ref)

def invokeStatic (e : Engine) (owner : Class) (m : Method) : Exec Unit := do
  if !m.isStatic then
    raise (.methodNotStatic m.ref)
  e.setUp owner
  let arguments ← inFrame (.popMany m.type.parameters.length)
  enterMethod e owner m arguments

def specialTarget (ref : MethodRef) (owner : Class) (m : Method) : Exec (Class × Method) := do
  match (← get).context? with
  | none => pure (owner, m)
  | some context =>
      if m.isPrivate || m.name = .constructor then
        return (owner, m)
      let named ← loadClass ref.klass
      if !context.isSubclassOf named then
        return (owner, m)
      match context.superclass.bind (·.lookupMethod? ref.name ref.type) with
      | none => raise (.bodilessFrom ref context.name)
      | some m =>
          let owner ← loadClass m.owner
          pure (owner, m)

def invokeSpecial (e : Engine) (ref : MethodRef) (owner : Class) (m : Method) : Exec Unit := do
  if m.isStatic then
    raise (.methodStatic m.ref)
  let (c, target) ← specialTarget ref owner m
  let arguments ← inFrame (.popMany (m.type.parameters.length + 1))
  let _ ← receiverOf target arguments
  if target.isAbstract then
    raise (.bodiless target.ref)
  enterMethod e c target arguments

def dynamicTarget? (ref : MethodRef) (m : Method) (runtime : Class) : Option Method :=
  (if m.isPrivate then some m else runtime.lookupMethod? ref.name ref.type).filter
    fun m => !m.isAbstract

def invokeDynamic (e : Engine) (isInterface : Bool) (ref : MethodRef) (m : Method) : Exec Unit := do
  let arguments ← inFrame (.popMany (m.type.parameters.length + 1))
  let runtime ← classOf (← receiverOf m arguments)
  if isInterface then
    let interface ← loadClass ref.klass
    if !runtime.isAssignable interface then
      raise (.notImplemented runtime.name interface.name)
  match dynamicTarget? ref m runtime with
  | none => raise (.bodilessOn ref runtime.name)
  | some target =>
      if target.isStatic then
        raise (.methodStatic target.ref)
      let c ← loadClass target.owner
      enterMethod e c target arguments

def invoke (e : Engine) (k : InvokeKind) (ref : MethodRef) : Exec Unit := do
  let (owner, m) ← resolveMethod ref
  match k with
  | .static => invokeStatic e owner m
  | .special => invokeSpecial e ref owner m
  | .virtual => invokeDynamic e false ref m
  | .interface => invokeDynamic e true ref m

end BytecodeMachine.Exec
