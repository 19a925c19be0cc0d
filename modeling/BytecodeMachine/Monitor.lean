/-!
The lock and the wait set of an object. The lock counts how often its owner entered it; a waiter gives it
up whole and takes it again at the same depth. Every operation is one indivisible step.
-/

namespace BytecodeMachine

structure Waiter where
  ticket : Nat
  notified : Bool
  deriving DecidableEq, Repr

structure Monitor where
  owner : Option Nat
  count : Nat
  waiters : List Waiter
  nextTicket : Nat
  deriving DecidableEq, Repr

namespace Monitor

def free : Monitor := ⟨none, 0, [], 0⟩

def isHeldBy (m : Monitor) (thread : Nat) : Bool :=
  m.owner = some thread

def enter? (m : Monitor) (thread : Nat) : Option Monitor :=
  match m.owner with
  | none => some { m with owner := some thread, count := 1 }
  | some owner => if owner = thread then some { m with count := m.count + 1 } else none

def release (m : Monitor) : Monitor :=
  { m with owner := if m.count ≤ 1 then none else m.owner, count := m.count - 1 }

/-- One level less. An unchecked exit takes the level from whoever has the lock. -/
def exit? (m : Monitor) (thread : Nat) (checked : Bool) : Option Monitor :=
  if m.isHeldBy thread || (!checked && m.owner.isSome) then some m.release else none

def park (m : Monitor) : Monitor where
  owner := none
  count := 0
  waiters := m.waiters ++ [⟨m.nextTicket, false⟩]
  nextTicket := m.nextTicket + 1

def isNotified (m : Monitor) (ticket : Nat) : Bool :=
  m.waiters.any fun w => w.ticket = ticket && w.notified

def leave (m : Monitor) (ticket : Nat) : Monitor :=
  { m with waiters := m.waiters.filter fun w => w.ticket ≠ ticket }

def retake? (m : Monitor) (thread count : Nat) : Option Monitor :=
  match m.owner with
  | none => some { m with owner := some thread, count := count }
  | some _ => none

def markFirst : List Waiter → List Waiter
  | [] => []
  | w :: ws => if w.notified then w :: markFirst ws else { w with notified := true } :: ws

def markAll (ws : List Waiter) : List Waiter :=
  ws.map fun w => { w with notified := true }

def notify? (m : Monitor) (thread : Nat) (all : Bool) : Option Monitor :=
  if m.isHeldBy thread then
    some { m with waiters := if all then markAll m.waiters else markFirst m.waiters }
  else none

def waiting (m : Monitor) : Nat := m.waiters.length

end Monitor

end BytecodeMachine
