import BytecodeMachine.Exec.Text

/-!
Static setup of classes: the static fields get their first values, then the classes above are set up, and
last the static initializer runs. It is done at most once, under the lock of the machine; whoever meets a
class in the middle of it, on the same thread, goes on.
-/

namespace BytecodeMachine.Exec

/-- The first value of a static field. A constant that does not fit the type is left out, save that a
string is put into any field. -/
def firstValue (e : Engine) (f : Field) : Exec Value :=
  match f.constant with
  | some (.string text) => do pure (.object (← intern e text))
  | some (.numeral n) => pure (if n.value.fits f.type then n.value else .default f.type)
  | _ => pure (.default f.type)

def setStatic (f : Field) (v : Value) : Exec Unit :=
  locked (update (·.setStatic f v))

def static (f : Field) : Exec Value :=
  locked (read (·.static f))

def seed (e : Engine) : List Field → Exec Unit
  | [] => pure ()
  | f :: rest => do
      if f.isStatic then
        setStatic f (← firstValue e f)
      seed e rest

def setUpAll (e : Engine) : List Class → Exec Unit
  | [] => pure ()
  | c :: rest => do
      e.setUp c
      setUpAll e rest

def runSetup (e : Engine) (c : Class) : Exec Unit := do
  seed e c.fields
  setUpAll e (c.superclass.toList ++ c.interfaces)
  match c.declaredMethod? .staticInitializer (.void []) with
  | none => pure ()
  | some m =>
      pass (.initializer c.name)
      let _ ← invokeMethod e c m []

/-- A class whose setup fails counts as set up. -/
def setUpOnce (e : Engine) (c : Class) : Exec Unit := do
  note (.initializing c.name)
  update (·.setInitState c.name .initializing)
  let outcome ← attempt (runSetup e c)
  if !outcome.isOk then
    pass (.setUpFailed c.name)
  update (·.setInitState c.name .initialized)
  note (.initialized c.name)
  ofTrap outcome

def setUp (e : Engine) (c : Class) : Exec Unit :=
  ending
    (do
      if (← read (·.initState c.name)) ≠ .initialized then
        locked do
          if (← read (·.initState c.name)) = .uninitialized then
            setUpOnce e c)
    (pass (.setUpLeft c.name))

end BytecodeMachine.Exec
