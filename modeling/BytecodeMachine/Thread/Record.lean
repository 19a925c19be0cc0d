import BytecodeMachine.Value

namespace BytecodeMachine

inductive ThreadStatus where
  | running
  | waiting
  | terminated
  deriving DecidableEq, Repr

def ThreadStatus.listing : ThreadStatus → String
  | .running => "Running"
  | .waiting => "Waiting"
  | .terminated => "Terminated"

def ThreadStatus.ofListing? (s : String) : Option ThreadStatus :=
  [running, waiting, terminated].find? fun t => t.listing = s

def systemCallCount : Nat := 21

structure ThreadRecord where
  id : Nat
  name : String
  interrupted : Bool
  terminate : Bool
  signaledExit : Bool
  priority : Nat
  status : ThreadStatus
  errors : Vector Int32 systemCallCount
  waitingOn : Option ObjectId
  deriving DecidableEq, Repr

namespace ThreadRecord

def normalPriority : Nat := 5

def start (id : Nat) (name : String) : ThreadRecord where
  id := id
  name := name
  interrupted := false
  terminate := false
  signaledExit := false
  priority := normalPriority
  status := .running
  errors := Vector.replicate systemCallCount 0
  waitingOn := none

def errorSlot (call : Nat) : Fin systemCallCount :=
  if h : call < systemCallCount then ⟨call, h⟩ else ⟨0, by decide⟩

def error (r : ThreadRecord) (call : Nat) : Int32 :=
  r.errors[errorSlot call]

def setError (r : ThreadRecord) (call : Nat) (code : Int32) : ThreadRecord :=
  { r with errors := r.errors.set (errorSlot call) code }

end ThreadRecord

end BytecodeMachine
