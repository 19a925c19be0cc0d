import BytecodeMachine.Thread.Frame

namespace BytecodeMachine

abbrev FrameM := ExceptT Trap (StateM Frame)

namespace FrameM

def fail {α : Type} (fault : Fault) : FrameM α := throw (.fatal fault)

def ofExcept {α : Type} : Except Fault α → FrameM α
  | .ok a => pure a
  | .error fault => fail fault

def push (v : Value) : FrameM Unit :=
  modify fun f => { f with stack := v :: f.stack }

def pushAll (vs : List Value) : FrameM Unit :=
  modify fun f => { f with stack := vs.reverse ++ f.stack }

def pop : FrameM Value := do
  match (← get).stack with
  | [] => fail .stackUnderflow
  | v :: rest =>
      modify fun f => { f with stack := rest }
      pure v

def popInt : FrameM Int32 := do ofExcept (← pop).asInt

def popLong : FrameM Int64 := do ofExcept (← pop).asLong

def popFloat : FrameM Ieee.Single := do ofExcept (← pop).asFloat

def popDouble : FrameM Ieee.Double := do ofExcept (← pop).asDouble

def popReference : FrameM (Option ObjectId) := do ofExcept (← pop).asReference

def popObject (context : String) : FrameM ObjectId := do
  match ← popReference with
  | some o => pure o
  | none => throw (.raise (.nullReceiver context))

/-- Pops some values, and gives them in the order in which they were pushed. -/
def popMany (count : Nat) : FrameM (List Value) := do
  let stack := (← get).stack
  if stack.length < count then fail .stackUnderflow
  else
    modify fun f => { f with stack := stack.drop count }
    pure (stack.take count).reverse

def clear : FrameM Unit :=
  modify fun f => { f with stack := [] }

def load (index : Nat) : FrameM Value := do
  ofExcept ((← get).load index)

def store (index : Nat) (v : Value) : FrameM Unit := do
  set (← ofExcept ((← get).store index v))

def jump (target : Nat) : FrameM Unit :=
  modify fun f => { f with pc := target }

def popNarrow : FrameM Value := do
  let v ← pop
  if v.width = 1 then pure v else fail (.splitWide v.width)

/-- Rearranges the top of the stack, in blocks of one or two slots; two values of one slot each, or one of
two, make a block of two. -/
def shuffle : Shuffle → FrameM Unit
  | .pop => do
      let _ ← popNarrow
  | .pop2 => do
      let a ← pop
      if a.width = 1 then
        let _ ← popNarrow
  | .dup => do
      let a ← popNarrow
      pushAll [a, a]
  | .dupX1 => do
      let a ← popNarrow
      let b ← popNarrow
      pushAll [a, b, a]
  | .dupX2 => do
      let a ← popNarrow
      let b ← pop
      if b.width = 1 then
        let c ← popNarrow
        pushAll [a, c, b, a]
      else pushAll [a, b, a]
  | .dup2 => do
      let a ← pop
      if a.width = 1 then
        let b ← popNarrow
        pushAll [b, a, b, a]
      else pushAll [a, a]
  | .dup2X1 => do
      let a ← pop
      let b ← popNarrow
      if a.width = 1 then
        let c ← popNarrow
        pushAll [b, a, c, b, a]
      else pushAll [a, b, a]
  | .dup2X2 => do
      let a ← pop
      if a.width = 1 then
        let b ← popNarrow
        let c ← pop
        if c.width = 1 then
          let d ← popNarrow
          pushAll [b, a, d, c, b, a]
        else pushAll [b, a, c, b, a]
      else
        let b ← pop
        if b.width = 1 then
          let c ← popNarrow
          pushAll [a, c, b, a]
        else pushAll [a, b, a]
  | .swap => do
      let a ← popNarrow
      let b ← popNarrow
      pushAll [a, b]

end FrameM

end BytecodeMachine
