import BytecodeMachine.Exec.Allocation

/-!
Calls. A method with code gets a frame, which is run later; a native one is done at once. A call from
outside stands on a blank frame, and is over when all frames above that one are gone.
-/

namespace BytecodeMachine

namespace Exec

def enterFrame (c : Class) (m : Method) (arguments : List Value) : Exec Unit := do
  if ← read (·.journal.keeps .debug) then
    note (.frameEntered m.ref (← get).depth)
  let f ← ofExcept (Frame.enter c m arguments)
  modify (·.push f)

def enterMethod (e : Engine) (c : Class) (m : Method) (arguments : List Value) : Exec Unit := do
  if m.isNative then
    match ← e.native m arguments with
    | some v => push v
    | none => pure ()
  else if m.isAbstract || m.code.isNone then raise (.bodiless m.ref)
  else enterFrame c m arguments

def takeResult : Exec (Option Value) := do
  match (← get).frames with
  | [] => fail .frameVanished
  | blank :: rest =>
      modify fun t => { t with frames := rest }
      match blank.tossed with
      | some o => throw (.throw o)
      | none => pure blank.stack.head?

def invokeMethod (e : Engine) (c : Class) (m : Method) (arguments : List Value) :
    Exec (Option Value) := do
  note (.hostCall m.ref)
  let depth := (← get).depth
  modify (·.push .blank)
  match ← attempt (do enterMethod e c m arguments; e.run (depth + 1)) with
  | .ok () => takeResult
  | .error trap =>
      modify (·.truncate depth)
      throw trap

/-- Runs a method on a blank frame, and gives the frames as they stand then, the outermost first; they are
gone afterwards. -/
def inspect (e : Engine) (c : Class) (m : Method) (arguments : List Value) :
    Exec (Except Trap Unit × List Frame) := do
  let depth := (← get).depth
  modify (·.push .blank)
  let outcome ← attempt do
    enterFrame c m arguments
    e.run (depth + 1)
  let t ← get
  set (t.truncate depth)
  pure (outcome, (t.frames.take (t.depth - depth)).reverse)

def wellTyped (v : Option Value) (result : Option FieldType) : Bool :=
  match v, result with
  | none, none => true
  | some v, some t => v.fits t
  | _, _ => false

def returnFrom (hasValue : Bool) : Exec Unit := do
  match (← get).frames with
  | [] => fail .noFrame
  | f :: rest =>
      modify fun t => { t with frames := rest }
      if hasValue && f.stack.isEmpty then
        fail .stackUnderflow
      let v := if hasValue then f.stack.head? else none
      match f.activation with
      | some a =>
          if !wellTyped v a.method.type.result then
            fail (.returned a.method.ref (v.map Value.kind))
      | none => pure ()
      match v, rest with
      | some v, _ :: _ => push v
      | _, _ => pure ()

end Exec

end BytecodeMachine
