import BytecodeMachine.Bridge.Conversion
import BytecodeMachine.Bridge.CoreFunctions
import BytecodeMachine.Exec.Setup

namespace BytecodeMachine.Exec

def callback (e : Engine) (text : Option String) : Exec NativeValue := do
  match (text.map ClassName.ofString).bind Except.toOption with
  | none => fail (.host "bad callback class")
  | some n =>
      let c ← loadClass n
      e.setUp c
      match c.declaredMethod? ⟨"callback"⟩ ⟨[], some .int⟩ with
      | none => fail (.host "no callback")
      | some m =>
          match ← invokeMethod e c m [] with
          | some v => pure (.int (← ofExcept v.asInt))
          | none => pure .void

def probe (e : Engine) (p : Probe) (arguments : List NativeValue) : Exec NativeValue := do
  match p with
  | .log =>
      update fun m => { m with remarks := m.remarks ++ (arguments.map (·.shown m)).toArray }
      pure .void
  | .echo => pure (arguments.getLast?.getD .void)
  | .depth => pure (.int (.ofNat (← get).depth))
  | .callback => callback e (← nativeString (← argument arguments 0))
  | .void => pure .void
  | .null => pure .null
  | .int => pure (.int (-98495))
  | .long => pure (.long (-1234567890123))
  | .float => pure (.float ⟨0x3FC00000⟩)
  | .double => pure (.double ⟨0xBFD0000000000000⟩)
  | .string => pure (.string "héllo 😀")
  | .chars => pure (.chars [104, 0xD83D, 0])
  | .ints => pure (.ints [1, -2, 2147483647])
  | .strings => pure (.strings [some "a", none, some ""])
  | .klass => pure (.klass .string)
  | .throw => raise (.host .arithmetic "from native")
  | .fatal => fail (.host "fatal native")
  | .exit => throw .exit
  | .asInt => pure (.int (← intArgument arguments 0))
  | .asLong => pure (.long (← longArgument arguments 0))
  | .asFloat => pure (.float (← nativeFloat (← argument arguments 0)))
  | .asDouble => pure (.double (← nativeDouble (← argument arguments 0)))
  | .asObject => pure (.ofReference (← referenceArgument arguments 0))
  | .asString =>
      match ← nativeString (← argument arguments 0) with
      | some s => pure (.string s)
      | none => pure .null
  | .equal =>
      let a ← argument arguments 0
      let b ← argument arguments 1
      pure (.int (if a = b then 1 else 0))

def applyNative (e : Engine) (n : Native) (arguments : List NativeValue) : Exec NativeValue :=
  match n with
  | .builtin b => builtin e b arguments
  | .intrinsic i => intrinsic e i arguments
  | .probe p => probe e p arguments

def convertArguments (m : Method) : List FieldType → List Value → Exec (List NativeValue)
  | [], _ => pure []
  | _ :: _, [] => fail (.missingArguments m.ref)
  | t :: ts, v :: vs => do
      let a ← toNative v t
      pure (a :: (← convertArguments m ts vs))

def nativeArguments (m : Method) (arguments : List Value) : Exec (List NativeValue) := do
  if m.isStatic then convertArguments m m.type.parameters arguments
  else
    match arguments with
    | .ref (some o) :: rest =>
        pure (.object o :: (← convertArguments m m.type.parameters rest))
    | _ => fail (.withoutReceiver m.ref)

def takeNative (e : Engine) (m : Method) (result : NativeValue) : Exec (Option Value) := do
  match m.type.result, result with
  | none, .void => pure none
  | none, v =>
      let shown ← read fun machine => v.shown machine
      fail (.voidReturned m.ref shown)
  | some t, v => do pure (some (← ofNative e v t))

def callNative (e : Engine) (m : Method) (arguments : List Value) : Exec (Option Value) := do
  match ← read (·.natives.get? m.ref.nativeKey) with
  | none => fail (.noBinding m.ref)
  | some n =>
      let arguments ← nativeArguments m arguments
      update fun machine =>
        machine.note (.nativeCall m.ref (arguments.map (·.shown machine)))
      takeNative e m (← applyNative e n arguments)

end BytecodeMachine.Exec
