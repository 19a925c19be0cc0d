import BytecodeMachine.Progress

namespace BytecodeMachine

inductive WaitStatus where
  | notified
  | interrupted
  | timedOut
  deriving DecidableEq, Repr

def WaitStatus.listing : WaitStatus → String
  | .notified => "Notified"
  | .interrupted => "Interrupted"
  | .timedOut => "TimedOut"

def WaitStatus.code : WaitStatus → Int32
  | .notified => 0
  | .interrupted => 1
  | .timedOut => 2

def WaitStatus.ofWake : Wake → WaitStatus
  | .notified => .notified
  | .timedOut => .timedOut
  | _ => .interrupted

def Machine.attachMonitor (o : ObjectId) (m : Machine) : Machine :=
  m.setMonitor o (m.monitorOf o)

def Machine.actOn (o : ObjectId) (f : Monitor → Option Monitor) (m : Machine) : Bool × Machine :=
  match f (m.monitorOf o) with
  | some monitor => (true, m.setMonitor o monitor)
  | none => (false, m.attachMonitor o)

namespace Prog

def refuse (a : MonitorAction) : Except Trap Unit := .error (.raise (.notHeld a))

/-- Fails only for a thread that is told to end while it waits. -/
def enterMonitor (thread : Nat) (o : ObjectId) : Prog (Except Trap Unit) := do
  match ← await (.enter o thread) with
  | .terminated => pure (.error .exit)
  | _ => pure (.ok ())

def exitMonitor (thread : Nat) (o : ObjectId) (checked : Bool) : Prog (Except Trap Unit) := do
  if ← act (·.actOn o (·.exit? thread checked)) then pure (.ok ())
  else pure (refuse .exit)

def notify (thread : Nat) (o : ObjectId) (all : Bool) : Prog (Except Trap Unit) := do
  if ← act (·.actOn o (·.notify? thread all)) then pure (.ok ())
  else pure (refuse .notify)

/-- Nanoseconds of a waiting time; negative parts count as none, and no time at all is without end. -/
def deadlineAfter (clock : Nat) (millis : Int64) (nanos : Int32) : Option Nat :=
  let time := millis.toInt.toNat * 1000000 + nanos.toInt.toNat
  if time = 0 then none else some (clock + time)

def park (o : ObjectId) (m : Machine) : (Nat × Nat) × Machine :=
  let monitor := m.monitorOf o
  ((monitor.nextTicket, monitor.count), m.setMonitor o monitor.park)

def waitOn (thread : Nat) (o : ObjectId) (millis : Int64) (nanos : Int32) :
    Prog (Except Trap WaitStatus) := do
  update (·.attachMonitor o)
  if !(← read fun m => (m.monitorOf o).isHeldBy thread) then
    return .error (.raise (.notHeld .wait))
  if ← act (·.takeInterrupt thread) then
    return .ok .interrupted
  let deadline ← read fun m => deadlineAfter m.clock millis nanos
  let (ticket, count) ← act (park o)
  let wake ← await (.notification o thread ticket deadline)
  let _ ← await (.retake o thread count)
  if ← read (·.shouldTerminate thread) then
    return .error .exit
  return .ok (.ofWake wake)

end Prog

end BytecodeMachine
