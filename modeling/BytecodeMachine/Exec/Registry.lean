import BytecodeMachine.Progress
import BytecodeMachine.Thread

namespace BytecodeMachine

namespace Machine

def takeThreadId (m : Machine) : Nat × Machine :=
  (m.nextThread, { m with nextThread := m.nextThread + 1 })

def register (r : ThreadRecord) (m : Machine) : Machine :=
  note (.registered r.id r.name) { m with threads := m.threads.put r.id r }

def recordExit (code : Int32) (m : Machine) : Machine :=
  match m.exitStatus with
  | none => { m.note (.exiting code) with exitStatus := some code }
  | some first => if first = code then m else m.note (.exitIgnored code first)

def threadIds (m : Machine) : List Nat := m.threads.map (·.1)

def tellToEnd (thread : Nat) (m : Machine) : Machine :=
  m.modifyRecord thread fun r => { r with terminate := true }

def setStatus (thread : Nat) (s : ThreadStatus) (m : Machine) : Machine :=
  m.modifyRecord thread fun r => { r with status := s }

def setPriority (thread : Nat) (priority : Int32) (m : Machine) : Except RunError Machine :=
  if (m.record? thread).isNone then .error (.noThread thread)
  else if 1 ≤ priority && priority ≤ 10 then
    .ok (m.modifyRecord thread fun r => { r with priority := priority.toInt.toNat })
  else .error (.priority priority)

def interrupt (thread : Nat) (m : Machine) : Except RunError Machine :=
  if (m.record? thread).isNone then .error (.noThread thread)
  else .ok (m.modifyRecord thread fun r => { r with interrupted := true })

def finish (thread : Nat) (name : String) (result : Except RunError Unit) (m : Machine) : Machine :=
  let m := m.setStatus thread .terminated
  match result with
  | .ok () => m.note (.finished thread name)
  | .error e => m.note (.stopped thread name e)

end Machine

namespace Prog

def newThread (name : String) : Prog Thread := do
  let id ← act Machine.takeThreadId
  let exiting ← read (·.exitStatus.isSome)
  turn
  update (·.register { ThreadRecord.start id name with terminate := exiting })
  pure (.start id name)

def tellAll : List Nat → Prog Unit
  | [] => pure ()
  | thread :: rest => do
      turn
      update (·.tellToEnd thread)
      tellAll rest

def exit (code : Int32) : Prog Unit := do
  update (·.recordExit code)
  turn
  tellAll (← read (·.threadIds))

end Prog

end BytecodeMachine
