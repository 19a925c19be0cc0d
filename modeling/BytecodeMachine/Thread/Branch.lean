import BytecodeMachine.Thread.Arithmetic

namespace BytecodeMachine

/-- The target at the place of a key among those from `low` on. The place is a word of 64 bits, as one of
32 bits may be too narrow for it. -/
def tableTarget (default : Nat) (low : Int32) (targets : List Nat) (key : Int32) : Nat :=
  let place := key.toInt64 - low.toInt64
  if place < 0 then default else (targets[place.toInt.toNat]?).getD default

def lookupTarget (default : Nat) (targets : List (Int32 × Nat)) (key : Int32) : Nat :=
  match targets.find? fun t => t.1 = key with
  | some (_, target) => target
  | none => default

namespace FrameM

def expectKind (i : Instruction) (k : Kind) (v : Value) : FrameM Unit :=
  if v.kind = k then pure () else fail (.wrongKind i v.kind)

def loadLocal (k : Kind) (slot : Nat) : FrameM Unit := do
  let v ← load slot
  expectKind (.load k slot) k v
  push v

def storeLocal (k : Kind) (slot : Nat) : FrameM Unit := do
  let v ← pop
  expectKind (.store k slot) k v
  store slot v

def jumpIf (taken : Bool) (target : Nat) : FrameM Unit :=
  if taken then jump target else pure ()

def ifZero (c : Comparison) (target : Nat) : FrameM Unit := do
  let n ← popInt
  jumpIf (c.holds (some (compareInts n 0))) target

def ifInts (c : Comparison) (target : Nat) : FrameM Unit := do
  let b ← popInt
  let a ← popInt
  jumpIf (c.holds (some (compareInts a b))) target

def ifSame (t : EqTest) (target : Nat) : FrameM Unit := do
  let b ← popReference
  let a ← popReference
  jumpIf (t.holds (a = b)) target

def ifNull (t : EqTest) (target : Nat) : FrameM Unit := do
  let a ← popReference
  jumpIf (t.holds a.isNone) target

def tableSwitch (default : Nat) (low : Int32) (targets : List Nat) : FrameM Unit := do
  let key ← popInt
  jump (tableTarget default low targets key)

def lookupSwitch (default : Nat) (targets : List (Int32 × Nat)) : FrameM Unit := do
  let key ← popInt
  jump (lookupTarget default targets key)

end FrameM

end BytecodeMachine
