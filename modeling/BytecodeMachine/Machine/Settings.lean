import BytecodeMachine.Entries
import BytecodeMachine.Name

namespace BytecodeMachine

/-- A frame that has made a multiple of `stepWarning` steps is warned about; zero warns of none. Machines
of tasks are one level deeper than what started them. -/
structure Settings where
  stepWarning : Nat
  properties : Entries String String
  uncaughtHandler : Option (ClassName × MemberName)
  memoryMax : Nat
  depth : Nat

namespace Settings

def standardProperties : Entries String String :=
  [("microedition.configuration", "CLDC-1.1"), ("microedition.profiles", "MIDP-2.0"),
    ("microedition.encoding", "UTF-8"), ("microedition.platform", "jmevm")]

def standard : Settings where
  stepWarning := 200000
  properties := standardProperties
  uncaughtHandler := none
  memoryMax := 16 * 1024 * 1024
  depth := 0

def nested (s : Settings) : Settings :=
  { s with depth := s.depth + 1 }

end Settings

structure Pipe where
  broken : Bool
  written : Array UInt8

namespace Pipe

def sound : Pipe := ⟨false, #[]⟩

def write? (p : Pipe) (bytes : List UInt8) : Option Pipe :=
  if p.broken then none else some { p with written := p.written ++ bytes.toArray }

def failure : String := "broken sink"

def drain (p : Pipe) : Pipe := { p with written := #[] }

end Pipe

end BytecodeMachine
