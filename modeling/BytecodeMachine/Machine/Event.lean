import BytecodeMachine.Trap

namespace BytecodeMachine

inductive Level where
  | error
  | warn
  | info
  | debug
  | trace
  deriving DecidableEq, Repr

namespace Level

def rank : Level → Nat
  | .error => 1
  | .warn => 2
  | .info => 3
  | .debug => 4
  | .trace => 5

def text : Level → String
  | .error => "ERROR"
  | .warn => "WARN"
  | .info => "INFO"
  | .debug => "DEBUG"
  | .trace => "TRACE"

def ofText? (s : String) : Option Level :=
  [error, warn, info, debug, trace].find? fun l => l.text = s

end Level

inductive Event where
  | uncaught (c : ClassName) (thread : String) (message : Option String)
  | fatal (thread : String) (fault : Fault)
  | traceUnwritten (reason : String)
  | exitIgnored (code first : Int32)
  | manySteps (m : MethodRef) (steps : Nat) (thread : String)
  | handlerThrew (c : ClassName) (m : MemberName)
  | finished (id : Nat) (name : String)
  | stopped (id : Nat) (name : String) (e : RunError)
  | exiting (code : Int32)
  | entering (thread : String) (m : MethodRef)
  | created (libraries natives depth : Nat)
  | registered (id : Nat) (name : String)
  | forgotten (id : Nat)
  | loaded (c : ClassName)
  | initializing (c : ClassName)
  | initialized (c : ClassName)
  | frameEntered (m : MethodRef) (depth : Nat)
  | unwinding (id frames : Nat)
  | tooLarge (c : ClassName) (length bytes most : Nat)
  | unsupportedCall (index : Int32)
  | exitRequested (thread : String) (code : Int32)
  | step (m : MethodRef) (pc : Nat) (i : Instruction)
  | hostCall (m : MethodRef)
  | nativeCall (m : MethodRef) (arguments : List String)
  | systemCall (call : Nat) (arguments : List Int32)
  | lineSkipped (line : String)
  | suiteWithoutClass (suite value : String)
  | noManifest (library : String)
  | taskNotStarted (id : UInt32) (reason : String)
  | taskStarted (id : UInt32) (entry : String)
  | taskExited (id : UInt32) (code : Int32)
  deriving Repr

namespace Event

def level : Event → Level
  | .uncaught _ _ _ | .fatal _ _ | .traceUnwritten _ => .error
  | .exitIgnored _ _ | .manySteps _ _ _ | .handlerThrew _ _ => .warn
  | .lineSkipped _ | .suiteWithoutClass _ _ | .noManifest _ | .taskNotStarted _ _ => .warn
  | .finished _ _ | .stopped _ _ _ | .exiting _ | .entering _ _ => .info
  | .taskStarted _ _ | .taskExited _ _ => .info
  | .step _ _ _ | .hostCall _ | .nativeCall _ _ | .systemCall _ _ | .forgotten _ => .trace
  | _ => .debug

def message : Event → String
  | .uncaught c thread message =>
      "Uncaught " ++ c.text ++ " in thread " ++ thread ++ ": " ++ message.getD "(no message)"
  | .fatal thread fault => "Fatal error in thread " ++ thread ++ ": " ++ fault.message
  | .traceUnwritten reason => "Could not write stack trace: " ++ reason
  | .exitIgnored code first =>
      "Ignoring exit status " ++ toString code.toInt ++ ", already exiting with "
        ++ toString first.toInt
  | .manySteps m steps thread =>
      m.text ++ " has executed " ++ toString steps ++ " steps without returning (thread "
        ++ thread ++ ")"
  | .handlerThrew c m => "Uncaught exception handler " ++ c.text ++ "." ++ m.text ++ " threw"
  | .finished id name => "Thread " ++ toString id ++ " (" ++ name ++ ") finished"
  | .stopped id name e => "Thread " ++ toString id ++ " (" ++ name ++ ") stopped: " ++ e.message
  | .exiting code => "Machine exiting with status " ++ toString code.toInt
  | .entering thread m => "Thread " ++ thread ++ " entering " ++ m.text
  | .created libraries natives depth =>
      "New machine over " ++ toString libraries ++ " libraries with " ++ toString natives
        ++ " native bindings (depth " ++ toString depth ++ ")"
  | .registered id name => "Registered thread " ++ toString id ++ " (" ++ name ++ ")"
  | .forgotten id => "Forgot thread " ++ toString id
  | .loaded c => "Loaded class " ++ c.text
  | .initializing c => "Initializing class " ++ c.text
  | .initialized c => "Initialized class " ++ c.text
  | .frameEntered m depth => "Entering " ++ m.text ++ " at depth " ++ toString depth
  | .unwinding id frames =>
      "Thread " ++ toString id ++ " unwinding " ++ toString frames ++ " frames on exit"
  | .tooLarge c length bytes most =>
      c.text ++ "[" ++ toString length ++ "] needs about " ++ toString bytes
        ++ " bytes, over the " ++ toString most ++ " byte maximum"
  | .unsupportedCall index => "Unsupported system call " ++ toString index.toInt
  | .exitRequested thread code =>
      "Thread " ++ thread ++ " requested exit with " ++ toString code.toInt
  | .step m pc i => m.text ++ ":" ++ toString pc ++ " " ++ i.listing
  | .hostCall m => "Host call into " ++ m.text
  | .nativeCall m arguments => "Native call " ++ m.text ++ " with " ++ Text.listed arguments
  | .systemCall call arguments =>
      "System call " ++ toString call ++ " with "
        ++ Text.listed (arguments.map fun a => toString a.toInt)
  | .lineSkipped line => "Skipping manifest line " ++ Text.quoted line
  | .suiteWithoutClass suite value => suite ++ " has no class: " ++ Text.quoted value
  | .noManifest library => "Library " ++ library ++ " has no manifest"
  | .taskNotStarted id reason => "Could not start task " ++ toString id ++ ": " ++ reason
  | .taskStarted id entry => "Started task " ++ toString id ++ " at " ++ entry
  | .taskExited id code =>
      "Task " ++ toString id ++ " exited with " ++ toString code.toInt

def text (e : Event) : String := e.level.text ++ " " ++ e.message

end Event

structure Journal where
  verbosity : Option Level
  events : Array Event

namespace Journal

def ofVerbosity (l : Option Level) : Journal := ⟨l, #[]⟩

def keeps (j : Journal) (l : Level) : Bool :=
  match j.verbosity with
  | none => false
  | some most => l.rank ≤ most.rank

def note (e : Event) (j : Journal) : Journal :=
  if j.keeps e.level then { j with events := j.events.push e } else j

def append (j k : Journal) : Journal := { j with events := j.events ++ k.events }

def drain (j : Journal) : Journal := { j with events := #[] }

end Journal

end BytecodeMachine
