import BytecodeMachine.Machine

/-!
Computations over a shared machine, as trees of indivisible steps. A computation may have to wait, and
goes on when what it waits for has been granted. Run by itself it takes all its steps up to the next wait
at once, and hands the machine over there.
-/

namespace BytecodeMachine

inductive Blocker where
  | turn
  | machineLock (thread : Nat)
  | enter (o : ObjectId) (thread : Nat)
  | notification (o : ObjectId) (thread ticket : Nat) (deadline : Option Nat)
  | retake (o : ObjectId) (thread count : Nat)
  | nap (thread deadline : Nat)
  deriving DecidableEq, Repr

inductive Wake where
  | granted
  | notified
  | interrupted
  | timedOut
  | terminated
  deriving DecidableEq, Repr

namespace Blocker

def passed (m : Machine) : Option Nat → Bool
  | none => false
  | some deadline => deadline ≤ m.clock

def leave (o : ObjectId) (ticket : Nat) (w : Wake) (m : Machine) : Option (Wake × Machine) :=
  some (w, m.setMonitor o ((m.monitorOf o).leave ticket))

/-- Grants what is waited for, in one step, or leaves all as it is. A notification comes before an
interrupt, and both before the end of the time. -/
def attempt (b : Blocker) (m : Machine) : Option (Wake × Machine) :=
  match b with
  | .turn => some (.granted, m)
  | .machineLock thread => (m.lock? thread).map fun m => (.granted, m)
  | .enter o thread =>
      match (m.monitorOf o).enter? thread with
      | some monitor => some (.granted, m.setMonitor o monitor)
      | none => if m.shouldTerminate thread then some (.terminated, m) else none
  | .notification o thread ticket deadline =>
      if (m.monitorOf o).isNotified ticket then leave o ticket .notified m
      else
        match m.takeInterrupt thread with
        | (true, m) => leave o ticket .interrupted m
        | (false, m) =>
            if m.shouldTerminate thread then leave o ticket .interrupted m
            else if passed m deadline then leave o ticket .timedOut m
            else none
  | .retake o thread count =>
      ((m.monitorOf o).retake? thread count).map fun monitor => (.granted, m.setMonitor o monitor)
  | .nap thread deadline =>
      if m.shouldTerminate thread then some (.terminated, m)
      else
        match m.takeInterrupt thread with
        | (true, m) => some (.interrupted, m)
        | (false, m) => if deadline ≤ m.clock then some (.timedOut, m) else none

def deadline? : Blocker → Option Nat
  | .notification _ _ _ deadline => deadline
  | .nap _ deadline => some deadline
  | _ => none

end Blocker

/-- What a computation shows of itself: what it notes, and places that it passes without a note. -/
inductive Sign where
  | noted (e : Event)
  | trapped (trap : Trap)
  | handled (o : ObjectId)
  | initializer (c : ClassName)
  | setUpFailed (c : ClassName)
  /-- A request to set a class up is over, whether there was anything to do or not. -/
  | setUpLeft (c : ClassName)

/-- Of the signs only notes leave something in the machine. -/
def Machine.pass (s : Sign) (m : Machine) : Machine :=
  match s with
  | .noted e => m.note e
  | _ => m

/-- A computation, which takes one indivisible step after another. `starved` is one that was cut off
because its bound on steps was used up. -/
inductive Prog (α : Type) : Type 1 where
  | done (a : α)
  | step {β : Type} (f : Machine → β × Machine) (next : β → Prog α)
  | sign (s : Sign) (next : Prog α)
  | wait (b : Blocker) (next : Wake → Prog α)
  | starved

inductive Progress (α : Type) where
  | done (a : α) (m : Machine)
  | blocked (b : Blocker) (m : Machine) (resume : Wake → Machine → Progress α)
  | starved

namespace Prog

def bind {α β : Type} (p : Prog α) (f : α → Prog β) : Prog β :=
  match p with
  | .done a => f a
  | .step g next => .step g fun b => (next b).bind f
  | .sign s next => .sign s (next.bind f)
  | .wait b next => .wait b fun w => (next w).bind f
  | .starved => .starved

theorem bind_done {α : Type} (p : Prog α) : p.bind .done = p := by
  induction p with
  | done a => rfl
  | step f next ih => simp only [bind, ih]
  | sign s next ih => simp only [bind, ih]
  | wait b next ih => simp only [bind, ih]
  | starved => rfl

theorem bind_assoc {α β γ : Type} (p : Prog α) (f : α → Prog β) (g : β → Prog γ) :
    (p.bind f).bind g = p.bind fun a => (f a).bind g := by
  induction p with
  | done a => rfl
  | step f next ih => simp only [bind, ih]
  | sign s next ih => simp only [bind, ih]
  | wait b next ih => simp only [bind, ih]
  | starved => rfl

instance : Monad Prog where
  pure := .done
  bind := bind

instance : LawfulMonad Prog :=
  LawfulMonad.mk' Prog bind_done (fun _ _ => rfl) bind_assoc

def starve {α : Type} : Prog α := .starved

def act {α : Type} (f : Machine → α × Machine) : Prog α := .step f .done

def read {α : Type} (f : Machine → α) : Prog α := act fun m => (f m, m)

def update (f : Machine → Machine) : Prog Unit := act fun m => ((), f m)

def pass (s : Sign) : Prog Unit := .sign s (.done ())

def note (e : Event) : Prog Unit := pass (.noted e)

def await (b : Blocker) : Prog Wake := .wait b .done

def turn : Prog Unit := .wait .turn fun _ => .done ()

def withLock {α : Type} (holder : Nat) (f : Machine → α × Machine) : Prog α := do
  let _ ← await (.machineLock holder)
  act fun m =>
    let (a, m) := f m
    (a, m.unlock)

/-- Takes steps until the computation is over or has to wait. It hands the machine over at each turn, and
elsewhere only if what it waits for cannot be granted at once. -/
def advance {α : Type} (p : Prog α) (m : Machine) : Progress α :=
  match p with
  | .done a => .done a m
  | .step f next =>
      match f m with
      | (b, m) => (next b).advance m
  | .sign s next => next.advance (m.pass s)
  | .wait .turn next => .blocked .turn m fun w m => (next w).advance m
  | .wait b next =>
      match b.attempt m with
      | some (w, m) => (next w).advance m
      | none => .blocked b m fun w m => (next w).advance m
  | .starved => .starved

end Prog

end BytecodeMachine
