import BytecodeMachine.Bridge.Value

namespace BytecodeMachine

def inRange (position length : Int32) (size : Nat) : Bool :=
  0 ≤ position.toInt && position.toInt + length.toInt ≤ size

namespace Machine

def className (m : Machine) (o : ObjectId) : Option ClassName :=
  (m.heap.get? o).map (·.klass.name)

def fitsComponent (m : Machine) (component : Class) (o : ObjectId) : Bool :=
  match m.heap.get? o with
  | some object => object.klass.isAssignable component
  | none => false

def misfit? (m : Machine) (component : Class) (refs : List (Option ObjectId)) : Option ObjectId :=
  (refs.filterMap id).find? fun o => !m.fitsComponent component o

def checkCopied (m : Machine) (dest : Object) (refs : List (Option ObjectId)) : Except Cause Unit :=
  match dest.klass.component with
  | none => .error .copyReferences
  | some component =>
      match m.misfit? component refs with
      | none => .ok ()
      | some o =>
          .error (.elementCopied ((m.className o).getD .object) dest.klass.name)

def copied (m : Machine) (same : Bool) (dest : Object) (source target : ArrayStorage)
    (start place length : Nat) : Except Trap ArrayStorage :=
  if same then .ok (target.copyWithin start place length)
  else
    let checked := match source.refs? with
      | some refs => m.checkCopied dest ((refs.drop start).take length)
      | none => .ok ()
    match checked with
    | .error cause => .error (.raise cause)
    | .ok () => target.copyFrom source start place length

/-- Copies a range of a source that was read before into an array as it is by now. Nothing comes
between the look at the array and the write. -/
def copyRange (m : Machine) (same : Bool) (source : ArrayStorage) (dest : ObjectId)
    (start place length : Nat) : Except Trap Unit × Machine :=
  match m.heap.get? dest with
  | none => (.error (.fatal .noSuchObject), m)
  | some object =>
      match object.storage with
      | .error fault => (.error (.fatal fault), m)
      | .ok target =>
          match m.copied same object source target start place length with
          | .error trap => (.error trap, m)
          | .ok s => (.ok (), { m with heap := m.heap.modify dest (·.setStorage s) })

end Machine

namespace Exec

def copyArray (source : ObjectId) (sourcePosition : Int32) (dest : ObjectId)
    (destPosition length : Int32) : Exec Unit := do
  let sourceObject ← object source
  let destObject ← object dest
  match sourceObject.body, destObject.body with
  | .array s, .array d =>
      if length < 0 || !inRange sourcePosition length s.length
          || !inRange destPosition length d.length then
        raise (.copyOutOfBounds length sourcePosition destPosition)
      if length ≠ 0 then
        let start := sourcePosition.toInt.toNat
        let place := destPosition.toInt.toNat
        let count := length.toInt.toNat
        ofTrap (← act (·.copyRange (source = dest) s dest start place count))
  | _, _ => raise .copyOfNonArrays

end Exec

end BytecodeMachine
