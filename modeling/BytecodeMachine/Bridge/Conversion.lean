import BytecodeMachine.Bridge.Value

namespace BytecodeMachine

def ClassName.boxed? (n : ClassName) : Option BaseType :=
  if n = .boolean then some .boolean
  else if n = .byte then some .byte
  else if n = .character then some .char
  else if n = .short then some .short
  else if n = .integer then some .int
  else if n = .long then some .long
  else if n = .float then some .float
  else if n = .double then some .double
  else none

def NativeValue.ofValue : Value → NativeValue
  | .int n => .int n
  | .long n => .long n
  | .float x => .float x
  | .double x => .double x
  | .ref r => .ofReference r

def BaseType.cut (b : BaseType) (n : Int32) : Int32 :=
  match b with
  | .boolean => if n = 0 then 0 else 1
  | .byte => n.toInt8.toInt32
  | .char => n.toUInt32.toUInt16.toUInt32.toInt32
  | .short => n.toInt16.toInt32
  | _ => n

namespace Exec

def refuseCrossing {α : Type} (shown : Machine → String) (t : FieldType) : Exec α := do
  let shown ← read shown
  fail (.bridgeShape shown t)

def refuseObject {α : Type} (o : ObjectId) (t : FieldType) : Exec α :=
  refuseCrossing (·.shownObject o) t

def hostStrings : List (Option ObjectId) → Exec (List (Option String))
  | [] => pure []
  | none :: rest => do pure (none :: (← hostStrings rest))
  | some o :: rest => do
      let text ← stringValue o
      pure (some text :: (← hostStrings rest))

def arrayToNative (o : ObjectId) (component : FieldType) : Exec NativeValue := do
  let s ← storage o
  if component = .base .char then
    match s.chars? with
    | some units => pure (.chars units)
    | none => refuseObject o (.array component)
  else if component = .int then
    match s.ints? with
    | some ns => pure (.ints ns)
    | none => refuseObject o (.array component)
  else if component = .string then
    match s.refs? with
    | some refs => pure (.strings (← hostStrings refs))
    | none => refuseObject o (.array component)
  else pure (.object o)

def objectToNative (o : ObjectId) (n : ClassName) : Exec NativeValue := do
  if n = .string then
    pure (.string (← stringValue o))
  else if n = .klass then
    match ← classNameOf? o with
    | some name => pure (.klass name)
    | none => refuseObject o (.object n)
  else if n.boxed?.isSome then
    if (← classOf o).name ≠ n then
      refuseObject o (.object n)
    else pure (.ofValue (← unbox o))
  else pure (.object o)

def toNative (v : Value) (t : FieldType) : Exec NativeValue := do
  match t, v with
  | .base b, v =>
      if v.fits (.base b) then pure (.ofValue v)
      else refuseCrossing (fun m => v.shown m) (.base b)
  | _, .ref none => pure .null
  | .object n, .ref (some o) => objectToNative o n
  | .array component, .ref (some o) => arrayToNative o component
  | t, v => refuseCrossing (fun m => v.shown m) t

def ofNativeBase (v : NativeValue) (b : BaseType) : Exec Value :=
  match v, b with
  | .long n, .long => pure (.long n)
  | .float x, .float => pure (.float x)
  | .double x, .double => pure (.double x)
  | .int n, b =>
      if (FieldType.base b).kind = .int then pure (.int (b.cut n))
      else refuseCrossing (fun m => v.shown m) (.base b)
  | v, b => refuseCrossing (fun m => v.shown m) (.base b)

def takes (t own : FieldType) : Bool :=
  t = own || t = .object .object

def ofNativeReference (e : Engine) (v : NativeValue) (t : FieldType) : Exec Value := do
  match v with
  | .null => pure .null
  | .object o => pure (.object o)
  | .string s =>
      if takes t .string then pure (.object (← newString e s)) else boxed t
  | .klass n =>
      if takes t (.object .klass) then pure (.object (← classObject e n)) else boxed t
  | .chars units =>
      if takes t .chars then pure (.object (← arrayOf (.base .char) (.ofChars units))) else boxed t
  | .ints ns =>
      if takes t (.array .int) then pure (.object (← arrayOf .int (.ofInts ns))) else boxed t
  | .strings texts =>
      if takes t (.array .string) then pure (.object (← newStringArray e texts)) else boxed t
  | _ => boxed t
where
  boxed (t : FieldType) : Exec Value := do
    match t with
    | .object n =>
        match n.boxed? with
        | some b => do pure (.object (← box e n (← ofNativeBase v b)))
        | none => refuseCrossing (fun m => v.shown m) t
    | t => refuseCrossing (fun m => v.shown m) t

def ofNative (e : Engine) (v : NativeValue) (t : FieldType) : Exec Value :=
  match t with
  | .base b => ofNativeBase v b
  | t => ofNativeReference e v t

end Exec

end BytecodeMachine
