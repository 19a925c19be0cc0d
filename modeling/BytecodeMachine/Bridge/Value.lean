import BytecodeMachine.Exec.Text

namespace BytecodeMachine

inductive NativeValue where
  | void
  | null
  | int (n : Int32)
  | long (n : Int64)
  | float (x : Ieee.Single)
  | double (x : Ieee.Double)
  | string (s : String)
  | chars (units : List UInt16)
  | ints (ns : List Int32)
  | strings (texts : List (Option String))
  | klass (n : ClassName)
  | object (o : ObjectId)
  deriving DecidableEq, Repr

def Machine.shownObject (m : Machine) (o : ObjectId) : String :=
  let name := ((m.heap.get? o).map (·.klass.name.text)).getD ""
  name ++ "@0x" ++ Text.hexDigits o.index

def Machine.shownTrap (m : Machine) : Trap → String
  | .throw o => Text.applied "Throw" [m.shownObject o]
  | .raise cause =>
      Text.applied "Condition" [cause.condition.listing, Text.quoted cause.message]
  | .fatal fault => Text.applied "Fatal" [Text.quoted fault.message]
  | .exit => "Exit"

def Value.shown (m : Machine) : Value → String
  | .int n => Text.applied "Int" [toString n.toInt]
  | .long n => Text.applied "Long" [toString n.toInt]
  | .float x => Text.applied "Float" [x.text]
  | .double x => Text.applied "Double" [x.text]
  | .ref none => Text.applied "Reference" ["None"]
  | .ref (some o) => Text.applied "Reference" [Text.applied "Some" [m.shownObject o]]

def NativeValue.shown (m : Machine) : NativeValue → String
  | .void => "Void"
  | .null => "Null"
  | .int n => Text.applied "Int" [toString n.toInt]
  | .long n => Text.applied "Long" [toString n.toInt]
  | .float x => Text.applied "Float" [x.text]
  | .double x => Text.applied "Double" [x.text]
  | .string s => Text.applied "String" [Text.quoted s]
  | .chars units => Text.applied "CharArray" [Text.listed (units.map fun u => toString u.toNat)]
  | .ints ns => Text.applied "IntArray" [Text.listed (ns.map fun n => toString n.toInt)]
  | .strings texts =>
      Text.applied "StringArray"
        [Text.listed (texts.map fun t => optionListing (t.map Text.quoted))]
  | .klass n => Text.applied "Class" [n.text]
  | .object o => Text.applied "Object" [m.shownObject o]

def NativeValue.ofReference : Option ObjectId → NativeValue
  | none => .null
  | some o => .object o

namespace Exec

def refuseShape {α : Type} (v : NativeValue) (expected : String) : Exec α := do
  let shown ← read fun m => v.shown m
  fail (.argumentShape shown expected)

def nativeInt : NativeValue → Exec Int32
  | .int n => pure n
  | v => refuseShape v "an int"

def nativeLong : NativeValue → Exec Int64
  | .long n => pure n
  | v => refuseShape v "a long"

def nativeFloat : NativeValue → Exec Ieee.Single
  | .float x => pure x
  | v => refuseShape v "a float"

def nativeDouble : NativeValue → Exec Ieee.Double
  | .double x => pure x
  | v => refuseShape v "a double"

def nativeObject : NativeValue → Exec (Option ObjectId)
  | .object o => pure (some o)
  | .null => pure none
  | v => refuseShape v "an object"

def nativeString : NativeValue → Exec (Option String)
  | .string s => pure (some s)
  | .null => pure none
  | v => refuseShape v "a string"

def argument (arguments : List NativeValue) (index : Nat) : Exec NativeValue :=
  match arguments[index]? with
  | some v => pure v
  | none => fail (.missingArgument index)

def intArgument (arguments : List NativeValue) (index : Nat) : Exec Int32 := do
  nativeInt (← argument arguments index)

def longArgument (arguments : List NativeValue) (index : Nat) : Exec Int64 := do
  nativeLong (← argument arguments index)

def referenceArgument (arguments : List NativeValue) (index : Nat) : Exec (Option ObjectId) := do
  nativeObject (← argument arguments index)

def objectArgument (arguments : List NativeValue) (index : Nat) (context : String) :
    Exec ObjectId := do
  match ← referenceArgument arguments index with
  | some o => pure o
  | none => raise (.nullArgument context)

def stringArgument (arguments : List NativeValue) (index : Nat) (missing : Cause) : Exec String := do
  match ← nativeString (← argument arguments index) with
  | some s => pure s
  | none => raise missing

end Exec

end BytecodeMachine
