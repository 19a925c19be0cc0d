import BytecodeMachine.Machine
import BytecodeMachine.Thread.Branch

namespace BytecodeMachine

/-- The innermost frame comes first. `unwound` describes the frames that the current exception has left, the
one left last first; `fatalTrace` the frames where a fault was first seen. -/
structure Thread where
  id : Nat
  name : String
  frames : List Frame
  unwound : List String
  fatalTrace : Option (List String)
  uncaught : Option ObjectId
  inHandler : Bool
  fatalReported : Bool

namespace Thread

def start (id : Nat) (name : String) : Thread where
  id := id
  name := name
  frames := []
  unwound := []
  fatalTrace := none
  uncaught := none
  inHandler := false
  fatalReported := false

def depth (t : Thread) : Nat := t.frames.length

/-- The depth is at most a limit; only as many frames as the limit are counted. -/
def isWithin (limit : Nat) (t : Thread) : Bool := (t.frames.drop limit).isEmpty

theorem isWithin_iff {limit : Nat} {t : Thread} : t.isWithin limit = true ↔ t.depth ≤ limit := by
  simp [isWithin, depth, List.drop_eq_nil_iff]

def activations (t : Thread) : List (Frame × Activation) :=
  t.frames.filterMap fun f => f.activation.map fun a => (f, a)

def activation? (t : Thread) : Option Activation :=
  t.frames.findSome? (·.activation)

def context? (t : Thread) : Option Class :=
  t.activation?.map (·.klass)

def trace (t : Thread) : List String :=
  t.activations.map fun (f, _) => f.describe

def push (f : Frame) (t : Thread) : Thread :=
  { t with frames := f :: t.frames }

def truncate (depth : Nat) (t : Thread) : Thread :=
  { t with frames := t.frames.drop (t.frames.length - depth) }

end Thread

end BytecodeMachine
