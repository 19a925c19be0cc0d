import BytecodeMachine.Manifest
import BytecodeMachine.Text.Bytes
import BytecodeMachine.World

namespace BytecodeMachine

inductive TaskError where
  | missingLibrary (name : String)
  | invalidEntry (entry : String)
  deriving DecidableEq, Repr

namespace TaskError

def listing : TaskError → String
  | .missingLibrary _ => "MissingLibrary"
  | .invalidEntry _ => "InvalidEntry"

def message : TaskError → String
  | .missingLibrary name => "no library named " ++ name
  | .invalidEntry entry => entry ++ " is not an entry point of the boot library"

def code : TaskError → Int32
  | .missingLibrary _ => -1
  | .invalidEntry _ => -2

end TaskError

inductive TaskStatus where
  | running
  | exitedRegular
  | exitedFatal
  deriving DecidableEq, Repr

def TaskStatus.listing : TaskStatus → String
  | .running => "Running"
  | .exitedRegular => "ExitedRegular"
  | .exitedFatal => "ExitedFatal"

structure Task where
  world : World
  exitCode : Option Int32

namespace Task

def codeOf : Except RunError Unit → Int32
  | .ok () => 0
  | .error (.exit code) => code
  | .error _ => 1

def result? (t : Task) : Option (Except RunError Unit) :=
  t.world.fibers.head?.bind Fiber.result?

def status (t : Task) : TaskStatus :=
  match t.exitCode with
  | none => .running
  | some code => if code = 0 then .exitedRegular else .exitedFatal

def machine (t : Task) : Machine := t.world.machine

/-- A task that the host gives no thread has ended before it runs. -/
def start (e : Engine) (g : Grant) (m : Machine) (entry : ClassName) (arguments : List String) : Task :=
  match g with
  | .granted => ⟨⟨m, [.start (.runMain e (.main entry) arguments)]⟩, none⟩
  | .denied _ => ⟨⟨m, []⟩, some 1⟩

def act (f : World → World) (t : Task) : Task :=
  let after : Task := ⟨f t.world, t.exitCode⟩
  { after with exitCode := t.exitCode <|> after.result?.map codeOf }

def finish (w : World) : World := (w.join 0).2

def exit (code : Int32) (w : World) : World :=
  match w.run (.exit code) with
  | some ((), w) => w
  | none => w

end Task

structure TaskTable where
  suites : List Library
  settings : Settings
  journal : Journal
  lastId : UInt32
  tasks : Entries UInt32 Task

namespace TaskTable

def opened (suites : List Library) (settings : Settings) (journal : Journal) : TaskTable :=
  ⟨suites, settings, journal, 0, []⟩

def manifestPath : String := "META-INF/MANIFEST.MF"

def note (e : Event) (t : TaskTable) : TaskTable :=
  { t with journal := t.journal.note e }

def suite? (t : TaskTable) (name : String) : Option Library :=
  t.suites.reverse.find? fun l => l.name = name

def findAll (t : TaskTable) : List String → Except TaskError (List Library)
  | [] => .ok []
  | name :: rest =>
      match t.suite? name with
      | none => .error (.missingLibrary name)
      | some l => (t.findAll rest).map (l :: ·)

def readManifest (text : String) : Manifest × List Event :=
  let m := Manifest.parse text
  (m, (Manifest.skippedLines text).map Event.lineSkipped
    ++ m.suitesWithoutClass.map fun s => .suiteWithoutClass s.1 s.2)

def manifestOf (l : Library) : Manifest × List Event :=
  match l.resource? manifestPath with
  | some bytes => readManifest (Text.ofBytes bytes)
  | none => (⟨[]⟩, [.noManifest l.name])

def entryClass (m : Manifest) (entry : String) : Except TaskError ClassName :=
  if entry ∈ m.entryPoints then (ClassName.ofSource entry).mapError fun _ => .invalidEntry entry
  else .error (.invalidEntry entry)

def findEntry (t : TaskTable) (path : List String) (entry : String) :
    Except TaskError (List Library × ClassName) × List Event :=
  match t.findAll path with
  | .error e => (.error e, [])
  | .ok libraries =>
      match libraries.getLast? with
      | none => (.error (.missingLibrary "(empty class path)"), [])
      | some boot =>
          let (m, events) := manifestOf boot
          ((entryClass m entry).map fun c => (libraries, c), events)

def hostName (id : UInt32) (entry : String) : String :=
  "MainTask-" ++ toString id ++ "-" ++ entry

/-- Adds a task on a new machine. Where the host cannot name its thread, the number is used up. -/
def add (e : Engine) (stdout stderr : Pipe) (g : Grant) (libraries : List Library) (c : ClassName)
    (entry : String) (arguments : List String) (t : TaskTable) : Option UInt32 × TaskTable :=
  let m := Machine.create libraries .standard t.settings.nested stdout stderr t.journal
  let id := t.lastId + 1
  let t := { t with journal := m.journal, lastId := id }
  if World.isHostName (hostName id entry) then
    let t := match g with
      | .granted => t
      | .denied reason => t.note (.taskNotStarted id reason)
    let task := Task.start e g { m with journal := m.journal.drain } c arguments
    (some id, note (.taskStarted id entry) { t with tasks := t.tasks.put id task })
  else (none, t)

/-- Starts a task, unless there is an error. The host may also break off, and then there is no answer. -/
def start (e : Engine) (stdout stderr : Pipe) (g : Grant) (path : List String) (entry : String)
    (arguments : List String) (t : TaskTable) : Option (Except TaskError UInt32) × TaskTable :=
  let (found, events) := t.findEntry path entry
  let t := events.foldl (fun t e => t.note e) t
  match found with
  | .error err => (some (.error err), t)
  | .ok (libraries, c) =>
      let (id, t) := t.add e stdout stderr g libraries c entry arguments
      (id.map .ok, t)

def task? (t : TaskTable) (id : UInt32) : Option Task := t.tasks.get? id

def status? (t : TaskTable) (id : UInt32) : Option TaskStatus :=
  (t.task? id).map Task.status

def act (id : UInt32) (f : World → World) (t : TaskTable) : TaskTable :=
  match t.task? id with
  | none => t
  | some task =>
      let after := task.act f
      let m := after.machine
      let kept := { after with world.machine := { m with journal := m.journal.drain } }
      let t := { t with
        journal := t.journal.append m.journal
        tasks := t.tasks.put id kept }
      match task.exitCode, after.exitCode with
      | none, some code => t.note (.taskExited id code)
      | _, _ => t

def wait (t : TaskTable) (id : UInt32) : TaskTable := t.act id Task.finish

def exit (t : TaskTable) (id : UInt32) (code : Int32) : TaskTable := t.act id (Task.exit code)

def drain (t : TaskTable) (id : UInt32) : TaskTable :=
  let t := t.act id fun w => { w with machine := w.machine.drain }
  { t with journal := t.journal.drain }

end TaskTable

end BytecodeMachine
