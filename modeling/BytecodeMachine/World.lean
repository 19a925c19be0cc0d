import BytecodeMachine.Entry

/-!
A machine with the threads that run on it by themselves. One computation at a time is in front; the others
get the machine when it has to wait, or has had it long enough. When all of them wait, the clock goes on to
the first time at which a wait ends by itself.
-/

namespace BytecodeMachine

inductive Fiber where
  | pending (b : Blocker) (resume : Wake → Machine → Progress (Except RunError Unit))
  | finished (result : Except RunError Unit)

namespace Fiber

def result? : Fiber → Option (Except RunError Unit)
  | .pending _ _ => none
  | .finished result => some result

def deadline? : Fiber → Option Nat
  | .pending b _ => b.deadline?
  | .finished _ => none

def start (p : Prog (Except RunError Unit)) : Fiber :=
  .pending .turn fun _ m => p.advance m

end Fiber

/-- What the host says when a thread of it is asked for. -/
inductive Grant where
  | granted
  | denied (reason : String)
  deriving DecidableEq, Repr

structure World where
  machine : Machine
  fibers : List Fiber

namespace World

/-- Nanoseconds from one turn to the next. -/
def turnTime : Nat := 1000

/-- How many turns one thread takes before the next one. -/
def patience : Nat := 1000

def tick (m : Machine) : Machine := { m with clock := m.clock + turnTime }

def slice : Nat → Fiber → Machine → Fiber × Machine × Bool
  | 0, f, m => (f, m, true)
  | _, .finished result, m => (.finished result, m, false)
  | turns + 1, .pending b resume, m =>
      match b.attempt m with
      | none => (.pending b resume, m, false)
      | some (wake, m) =>
          match resume wake (tick m) with
          | .done result m => (.finished result, m, true)
          | .starved => (.finished (.error (.fatal .noFrame)), m, true)
          | .blocked b m resume =>
              let (f, m, _) := slice turns (.pending b resume) m
              (f, m, true)

def round : List Fiber → Machine → List Fiber × Machine × Bool
  | [], m => ([], m, false)
  | f :: rest, m =>
      let (f, m, moved) := slice patience f m
      let (rest, m, others) := round rest m
      (f :: rest, m, moved || others)

def earliest : List (Option Nat) → Option Nat
  | [] => none
  | none :: rest => earliest rest
  | some d :: rest => some (((earliest rest).map (min d)).getD d)

def setClock (d : Nat) (m : Machine) : Machine := { m with clock := max m.clock d }

/-- Runs the computation in front to its end. There is none if it waits for what never comes. -/
def drive {α : Type} : Nat → Nat → Progress α → List Fiber → Option (α × World)
  | 0, _, _, _ => none
  | _, _, .starved, _ => none
  | _, _, .done a m, fibers => some (a, ⟨m, fibers⟩)
  | bound + 1, 0, .blocked b m resume, fibers =>
      let (fibers, m, _) := round fibers m
      drive bound patience (.blocked b m resume) fibers
  | bound + 1, turns + 1, .blocked b m resume, fibers =>
      match b.attempt m with
      | some (wake, m) => drive bound turns (resume wake (tick m)) fibers
      | none =>
          let (fibers, m, moved) := round fibers m
          if moved then drive bound patience (.blocked b m resume) fibers
          else
            match earliest (b.deadline? :: fibers.map Fiber.deadline?) with
            | none => none
            | some d => drive bound patience (.blocked b (setClock d m) resume) fibers

def bound : Nat := 1000000000000000000

def run {α : Type} (p : Prog α) (w : World) : Option (α × World) :=
  drive bound patience (p.advance w.machine) w.fibers

def runUntil {α : Type} (test : World → Option α) (limit : Option Nat) :
    Nat → World → Option α × World
  | 0, w => (none, w)
  | bound + 1, w =>
      match test w with
      | some a => (some a, w)
      | none =>
          if Blocker.passed w.machine limit then (none, w)
          else
            let (fibers, m, moved) := round w.fibers w.machine
            if moved then runUntil test limit bound ⟨m, fibers⟩
            else
              match earliest (limit :: fibers.map Fiber.deadline?) with
              | none => (none, ⟨m, fibers⟩)
              | some d => runUntil test limit bound ⟨setClock d m, fibers⟩

/-- A thread of the host cannot have a name with a zero in it: the host breaks off. -/
def isHostName (name : String) : Bool := !name.toList.contains '\x00'

def start (e : Engine) (g : Grant) (p : EntryPoint) (arguments : List String) (w : World) :
    Option (Except RunError Nat × World) :=
  match run (.newThread p.threadName) w with
  | none => none
  | some (t, w) =>
      if isHostName p.threadName then
        match g with
        | .granted =>
            let fiber := Fiber.start (.runThread e t p arguments)
            some (.ok t.id, { w with fibers := w.fibers ++ [fiber] })
        | .denied reason =>
            some (.error (.fatal (.noHostThread reason)),
              { w with machine := w.machine.forget t.id })
      else none

def join (index : Nat) (w : World) : Option (Except RunError Unit) × World :=
  runUntil (fun w => w.fibers[index]?.bind Fiber.result?) none bound w

def statusTime : Nat := 5000000000

def awaitStatus (thread : Nat) (s : ThreadStatus) (w : World) : Bool × World :=
  let limit := w.machine.clock + statusTime
  let reached (w : World) : Option Unit :=
    if w.machine.threadStatus? thread = some s then some () else none
  let (found, w) := runUntil reached (some limit) bound w
  (found.isSome, w)

end World

end BytecodeMachine
