import BytecodeMachine.Access
import BytecodeMachine.Entries
import BytecodeMachine.Instruction

namespace BytecodeMachine

/-- The range from `start` to before `stop` goes to `target` when something assignable to the catch
type is thrown; without a catch type, whatever is thrown. -/
structure Handler where
  start : Nat
  stop : Nat
  target : Nat
  catchType : Option ClassName
  deriving DecidableEq, Repr

structure LineEntry where
  start : Nat
  line : Nat
  deriving DecidableEq, Repr

structure Code where
  maxLocals : Nat
  instructions : Array Instruction
  handlers : List Handler
  lines : List LineEntry
  deriving DecidableEq, Repr

namespace Code

def handlersAt (c : Code) (pc : Nat) : List Handler :=
  c.handlers.filter fun h => h.start ≤ pc && pc < h.stop

def lineAt (c : Code) (pc : Nat) : Option Nat :=
  (c.lines.takeWhile (·.start ≤ pc)).getLast?.map (·.line)

def plain (maxLocals : Nat) (instructions : List Instruction) : Code :=
  ⟨maxLocals, instructions.toArray, [], []⟩

end Code

structure FieldData where
  access : FieldAccess
  name : MemberName
  type : FieldType
  constant : Option Constant
  deriving DecidableEq, Repr

structure MethodData where
  access : MethodAccess
  name : MemberName
  type : MethodType
  code : Option Code
  deriving DecidableEq, Repr

structure ClassData where
  name : ClassName
  superclass : Option ClassName
  interfaces : List ClassName
  access : ClassAccess
  source : Option String
  fields : List FieldData
  methods : List MethodData
  deriving DecidableEq, Repr

structure Library where
  name : String
  classes : Entries ClassName ClassData
  resources : Entries String (List UInt8)

/-- Of two classes of one name the later counts. -/
def Library.ofClasses (name : String) (classes : List ClassData)
    (resources : Entries String (List UInt8)) : Library :=
  ⟨name, classes.foldl (fun es c => es.put c.name c) [], resources⟩

def Library.answering (l : Library) (aliases : List (ClassName × Option ClassName)) : Library :=
  { l with
    classes := aliases.foldl (fun es (asked, answered) =>
      match answered.bind l.classes.get? with
      | some c => es.put asked c
      | none => es.filter fun e => e.1 ≠ asked) l.classes }

def Library.class? (l : Library) (n : ClassName) : Option ClassData :=
  l.classes.get? n

def Library.resource? (l : Library) (path : String) : Option (List UInt8) :=
  l.resources.get? path

end BytecodeMachine
