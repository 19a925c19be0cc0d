import BytecodeMachine.Bridge.Native
import BytecodeMachine.CoreLibrary
import BytecodeMachine.Heap
import BytecodeMachine.Machine.Event
import BytecodeMachine.Machine.Settings
import BytecodeMachine.Numbering
import BytecodeMachine.Resolution
import BytecodeMachine.Thread.Record

namespace BytecodeMachine

inductive InitState where
  | uninitialized
  | initializing
  | initialized
  deriving DecidableEq, Repr

def InitState.listing : InitState → String
  | .uninitialized => "Uninitialized"
  | .initializing => "Initializing"
  | .initialized => "Initialized"

structure MachineLock where
  owner : Nat
  depth : Nat
  deriving DecidableEq, Repr

structure ClassObjects where
  objects : Entries ClassName ObjectId
  names : Entries ObjectId ClassName
  deriving DecidableEq, Repr

namespace ClassObjects

def empty : ClassObjects := ⟨[], []⟩

def get? (c : ClassObjects) (n : ClassName) : Option ObjectId := c.objects.get? n

def name? (c : ClassObjects) (o : ObjectId) : Option ClassName := c.names.get? o

def enter (n : ClassName) (o : ObjectId) (c : ClassObjects) : ObjectId × ClassObjects :=
  let o := (c.get? n).getD o
  (o, ⟨c.objects.put n o, c.names.put o n⟩)

end ClassObjects

/-- The core library comes first. Static fields are kept under their class and their place in it, and the
clock counts nanoseconds. -/
structure Machine where
  settings : Settings
  libraries : List Library
  natives : NativeTable
  classes : ClassTable
  initStates : Entries ClassName InitState
  heap : Heap
  statics : Entries (ClassName × Nat) Value
  interned : Entries String ObjectId
  classObjects : ClassObjects
  pointers : Numbering ObjectId
  strings : Numbering String
  lock : Option MachineLock
  threads : Entries Nat ThreadRecord
  nextThread : Nat
  exitStatus : Option Int32
  allocated : Nat
  clock : Nat
  stdout : Pipe
  stderr : Pipe
  journal : Journal
  remarks : Array String

namespace Machine

def note (e : Event) (m : Machine) : Machine :=
  { m with journal := m.journal.note e }

def create (libraries : List Library) (natives : NativeTable) (settings : Settings)
    (stdout stderr : Pipe) (journal : Journal) : Machine :=
  note (.created (libraries.length + 1) natives.length settings.depth)
    { settings := settings
      libraries := CoreLibrary.library :: libraries
      natives := natives
      classes := []
      initStates := []
      heap := .empty
      statics := []
      interned := []
      classObjects := .empty
      pointers := .empty
      strings := .empty
      lock := none
      threads := []
      nextThread := 1
      exitStatus := none
      allocated := 0
      clock := 1
      stdout := stdout
      stderr := stderr
      journal := journal
      remarks := #[] }

def initState (m : Machine) (c : ClassName) : InitState :=
  (m.initStates.get? c).getD .uninitialized

def setInitState (c : ClassName) (s : InitState) (m : Machine) : Machine :=
  { m with initStates := m.initStates.put c s }

def static (m : Machine) (f : Field) : Value :=
  (m.statics.get? (f.owner, f.index)).getD (Value.default f.type)

def setStatic (f : Field) (v : Value) (m : Machine) : Machine :=
  { m with statics := m.statics.put (f.owner, f.index) v }

def resolve {α : Type} (r : List Library → Resolving α) (m : Machine) :
    Except LinkError α × Machine :=
  let (result, classes) := r m.libraries m.classes
  let new := classes.drop m.classes.length
  (result, new.foldl (fun m e => m.note (.loaded e.1)) { m with classes := classes })

def pointer : Option ObjectId → Machine → Int32 × Machine
  | none, m => (0, m)
  | some o, m =>
      let (id, pointers) := m.pointers.number o
      (id, { m with pointers := pointers })

def stringId (text : String) (m : Machine) : Int32 × Machine :=
  let (id, strings) := m.strings.number text
  (id, { m with strings := strings })

def classNameOf? (m : Machine) (o : ObjectId) : Option ClassName := m.classObjects.name? o

def enroll (n : ClassName) (o : ObjectId) (m : Machine) : ObjectId × Machine :=
  let (o, classObjects) := m.classObjects.enter n o
  (o, { m with classObjects := classObjects })

def keep (text : String) (o : ObjectId) (m : Machine) : ObjectId × Machine :=
  let o := (m.interned.get? text).getD o
  (o, { m with interned := m.interned.put text o })

def record? (m : Machine) (thread : Nat) : Option ThreadRecord :=
  m.threads.get? thread

def shouldTerminate (m : Machine) (thread : Nat) : Bool :=
  (m.record? thread).any (·.terminate)

def modifyRecord (thread : Nat) (f : ThreadRecord → ThreadRecord) (m : Machine) : Machine :=
  { m with threads := m.threads.map fun e => if e.1 = thread then (e.1, f e.2) else e }

def takeInterrupt (thread : Nat) (m : Machine) : Bool × Machine :=
  ((m.record? thread).any (·.interrupted),
    m.modifyRecord thread fun r => { r with interrupted := false })

def forget (thread : Nat) (m : Machine) : Machine :=
  if (m.record? thread).isSome then
    note (.forgotten thread) { m with threads := m.threads.filter fun e => e.1 ≠ thread }
  else m

def threadStatus? (m : Machine) (thread : Nat) : Option ThreadStatus :=
  match m.record? thread with
  | some r => some r.status
  | none => if 0 < thread && thread < m.nextThread then some .terminated else none

def monitorOf (m : Machine) (o : ObjectId) : Monitor :=
  ((m.heap.get? o).bind (·.monitor)).getD .free

def setMonitor (o : ObjectId) (monitor : Monitor) (m : Machine) : Machine :=
  { m with heap := m.heap.modify o fun object => { object with monitor := some monitor } }

def monitor? (m : Machine) (o : ObjectId) : Option Monitor :=
  (m.heap.get? o).bind (·.monitor)

def lock? (thread : Nat) (m : Machine) : Option Machine :=
  match m.lock with
  | none => some { m with lock := some ⟨thread, 1⟩ }
  | some l =>
      if l.owner = thread then some { m with lock := some { l with depth := l.depth + 1 } }
      else none

def unlock (m : Machine) : Machine :=
  match m.lock with
  | none => m
  | some l => { m with lock := if l.depth ≤ 1 then none else some { l with depth := l.depth - 1 } }

def alloc (o : Object) (bytes : Nat) (m : Machine) : ObjectId × Machine :=
  let (id, heap) := m.heap.alloc o
  (id, { m with heap := heap, allocated := m.allocated + bytes })

def drain (m : Machine) : Machine :=
  { m with stdout := m.stdout.drain, stderr := m.stderr.drain, journal := m.journal.drain,
           remarks := #[] }

end Machine

end BytecodeMachine
