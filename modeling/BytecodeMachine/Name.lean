/-!
Names of classes and of members. A class name is a path of segments; the name of an array class is its
own descriptor, so it starts with a bracket.
-/

namespace BytecodeMachine

structure MemberName where
  text : String
  deriving DecidableEq, Repr, Inhabited

structure ClassName where
  text : String
  deriving DecidableEq, Repr, Inhabited

inductive NameError where
  | illegalCharacter (member : String)
  | emptyMember
  | emptyClass
  | malformedArray (name : String)
  deriving DecidableEq, Repr

def NameError.message : NameError → String
  | .illegalCharacter member => "Unqualified name '" ++ member ++ "' contains an illegal character"
  | .emptyMember => "Unqualified name '' is empty"
  | .emptyClass => "Binary name '' is empty"
  | .malformedArray name => "Array name '" ++ name ++ "' is malformed"

namespace MemberName

def isReserved (c : Char) : Bool :=
  c = '.' || c = ';' || c = '[' || c = '/'

def check (cs : List Char) : Except NameError Unit :=
  if cs.any isReserved then .error (.illegalCharacter (String.ofList cs))
  else if cs.isEmpty then .error .emptyMember
  else .ok ()

def Valid (n : MemberName) : Prop :=
  (check n.text.toList).isOk = true

instance (n : MemberName) : Decidable n.Valid :=
  inferInstanceAs (Decidable (_ = _))

def ofString (s : String) : Except NameError MemberName :=
  (check s.toList).map fun _ => ⟨s⟩

def constructor : MemberName := ⟨"<init>"⟩

def staticInitializer : MemberName := ⟨"<clinit>"⟩

def main : MemberName := ⟨"main"⟩

def message : MemberName := ⟨"message"⟩

def value : MemberName := ⟨"value"⟩

def isInitializer (n : MemberName) : Bool :=
  n = constructor || n = staticInitializer

end MemberName

def segments : List Char → List (List Char)
  | [] => [[]]
  | c :: cs =>
      if c = '/' then [] :: segments cs
      else match segments cs with
        | [] => [[c]]
        | s :: rest => (c :: s) :: rest

def isBaseCode (c : Char) : Bool :=
  c = 'B' || c = 'C' || c = 'D' || c = 'F' || c = 'I' || c = 'J' || c = 'S' || c = 'Z'

namespace ClassName

def element (cs : List Char) : List Char :=
  cs.dropWhile (· = '[')

theorem element_length_le (cs : List Char) : (element cs).length ≤ cs.length :=
  (List.dropWhile_suffix _).length_le

def checkSegments : List (List Char) → Except NameError Unit
  | [] => .ok ()
  | s :: rest =>
      match MemberName.check s with
      | .error e => .error e
      | .ok () => checkSegments rest

def check (cs : List Char) : Except NameError Unit :=
  match cs with
  | [] => .error .emptyClass
  | '[' :: tail =>
      match _h : element tail with
      | [c] =>
          if isBaseCode c then .ok () else .error (.malformedArray (String.ofList ('[' :: tail)))
      | 'L' :: rest =>
          if rest.getLast? = some ';' then check rest.dropLast
          else .error (.malformedArray (String.ofList ('[' :: tail)))
      | _ => .error (.malformedArray (String.ofList ('[' :: tail)))
  | c :: tail => checkSegments (segments (c :: tail))
termination_by cs.length
decreasing_by
  have := element_length_le tail
  simp only [_h, List.length_cons] at this
  simp only [List.length_dropLast, List.length_cons]
  omega

def Valid (n : ClassName) : Prop :=
  (check n.text.toList).isOk = true

instance (n : ClassName) : Decidable n.Valid :=
  inferInstanceAs (Decidable (_ = _))

def ofString (s : String) : Except NameError ClassName :=
  (check s.toList).map fun _ => ⟨s⟩

def isArray (n : ClassName) : Bool :=
  n.text.toList.head? = some '['

def beforeLastSlash (cs : List Char) : List Char :=
  ((cs.reverse.dropWhile (· ≠ '/')).drop 1).reverse

/-- Arrays are in the package of their innermost element class. -/
def package (n : ClassName) : String :=
  let inner := element n.text.toList
  let path := match inner with
    | 'L' :: rest => if rest.getLast? = some ';' then rest.dropLast else inner
    | _ => inner
  String.ofList (beforeLastSlash path)

def swap (a b : Char) (c : Char) : Char :=
  if c = a then b else c

def toSource (n : ClassName) : String :=
  String.ofList (n.text.toList.map (swap '/' '.'))

def ofSource (s : String) : Except NameError ClassName :=
  ofString (String.ofList (s.toList.map (swap '.' '/')))

def object : ClassName := ⟨"java/lang/Object"⟩
def klass : ClassName := ⟨"java/lang/Class"⟩
def string : ClassName := ⟨"java/lang/String"⟩
def system : ClassName := ⟨"java/lang/System"⟩
def thread : ClassName := ⟨"java/lang/Thread"⟩
def cloneable : ClassName := ⟨"java/lang/Cloneable"⟩
def serializable : ClassName := ⟨"java/io/Serializable"⟩

def boolean : ClassName := ⟨"java/lang/Boolean"⟩
def byte : ClassName := ⟨"java/lang/Byte"⟩
def character : ClassName := ⟨"java/lang/Character"⟩
def short : ClassName := ⟨"java/lang/Short"⟩
def integer : ClassName := ⟨"java/lang/Integer"⟩
def long : ClassName := ⟨"java/lang/Long"⟩
def float : ClassName := ⟨"java/lang/Float"⟩
def double : ClassName := ⟨"java/lang/Double"⟩
def number : ClassName := ⟨"java/lang/Number"⟩

def throwable : ClassName := ⟨"java/lang/Throwable"⟩
def exception : ClassName := ⟨"java/lang/Exception"⟩
def error : ClassName := ⟨"java/lang/Error"⟩
def runtimeException : ClassName := ⟨"java/lang/RuntimeException"⟩
def arithmetic : ClassName := ⟨"java/lang/ArithmeticException"⟩
def indexOutOfBounds : ClassName := ⟨"java/lang/IndexOutOfBoundsException"⟩
def arrayIndexOutOfBounds : ClassName := ⟨"java/lang/ArrayIndexOutOfBoundsException"⟩
def arrayStore : ClassName := ⟨"java/lang/ArrayStoreException"⟩
def classCast : ClassName := ⟨"java/lang/ClassCastException"⟩
def illegalMonitorState : ClassName := ⟨"java/lang/IllegalMonitorStateException"⟩
def interrupted : ClassName := ⟨"java/lang/InterruptedException"⟩
def negativeArraySize : ClassName := ⟨"java/lang/NegativeArraySizeException"⟩
def nullPointer : ClassName := ⟨"java/lang/NullPointerException"⟩
def abstractMethod : ClassName := ⟨"java/lang/AbstractMethodError"⟩
def illegalAccess : ClassName := ⟨"java/lang/IllegalAccessError"⟩
def incompatibleClassChange : ClassName := ⟨"java/lang/IncompatibleClassChangeError"⟩
def instantiation : ClassName := ⟨"java/lang/InstantiationError"⟩
def linkage : ClassName := ⟨"java/lang/LinkageError"⟩
def noClassDefFound : ClassName := ⟨"java/lang/NoClassDefFoundError"⟩
def noSuchField : ClassName := ⟨"java/lang/NoSuchFieldError"⟩
def noSuchMethod : ClassName := ⟨"java/lang/NoSuchMethodError"⟩
def virtualMachine : ClassName := ⟨"java/lang/VirtualMachineError"⟩
def outOfMemory : ClassName := ⟨"java/lang/OutOfMemoryError"⟩

def intrinsics : ClassName := ⟨"jmevm/runtime/Intrinsics"⟩
def objectAccess : ClassName := ⟨"jmevm/runtime/ObjectAccess"⟩

end ClassName

end BytecodeMachine
