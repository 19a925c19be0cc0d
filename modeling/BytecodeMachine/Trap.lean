import BytecodeMachine.Instruction.Listing

namespace BytecodeMachine

inductive Malformation where
  | circular
  | otherName
  | noSuperclass
  | notArrayType
  | badComponent (component : FieldType)
  deriving DecidableEq, Repr

def Malformation.message : Malformation → String
  | .circular => "class circularly extends itself"
  | .otherName => "library returned a class with a different name"
  | .noSuperclass => "only java/lang/Object may lack a superclass"
  | .notArrayType => "not an array descriptor"
  | .badComponent component => "bad array component " ++ component.text

inductive LinkError where
  | classNotFound (c : ClassName)
  | illegalAccess (target : String) (context : ClassName)
  | noSuchField (f : FieldRef)
  | noSuchMethod (m : MethodRef)
  | extendsInterface (c superclass : ClassName)
  | implementsClass (c interface : ClassName)
  | malformed (c : ClassName) (m : Malformation)
  deriving DecidableEq, Repr

def LinkError.listing : LinkError → String
  | .classNotFound _ => "ClassNotFound"
  | .illegalAccess _ _ => "IllegalAccess"
  | .noSuchField _ => "NoSuchField"
  | .noSuchMethod _ => "NoSuchMethod"
  | .extendsInterface _ _ | .implementsClass _ _ => "IncompatibleClassChange"
  | .malformed _ _ => "Malformed"

def LinkError.message : LinkError → String
  | .classNotFound c => "class " ++ c.text ++ " not found"
  | .illegalAccess target context => target ++ " is not accessible from " ++ context.text
  | .noSuchField f => "no field " ++ f.name.text ++ " on " ++ f.klass.text
  | .noSuchMethod m => "no method " ++ m.name.text ++ m.type.text ++ " on " ++ m.klass.text
  | .extendsInterface c s =>
      "incompatible class change: " ++ c.text ++ " extends interface " ++ s.text
  | .implementsClass c i =>
      "incompatible class change: " ++ c.text ++ " implements non-interface " ++ i.text
  | .malformed c m => "malformed class " ++ c.text ++ ": " ++ m.message

inductive Condition where
  | arithmetic
  | arrayIndexOutOfBounds
  | arrayStore
  | classCast
  | illegalMonitorState
  | interrupted
  | negativeArraySize
  | nullPointer
  | abstractMethod
  | illegalAccess
  | incompatibleClassChange
  | instantiation
  | noClassDefFound
  | noSuchField
  | noSuchMethod
  | outOfMemory
  deriving DecidableEq, Repr

def Condition.className : Condition → ClassName
  | .arithmetic => .arithmetic
  | .arrayIndexOutOfBounds => .arrayIndexOutOfBounds
  | .arrayStore => .arrayStore
  | .classCast => .classCast
  | .illegalMonitorState => .illegalMonitorState
  | .interrupted => .interrupted
  | .negativeArraySize => .negativeArraySize
  | .nullPointer => .nullPointer
  | .abstractMethod => .abstractMethod
  | .illegalAccess => .illegalAccess
  | .incompatibleClassChange => .incompatibleClassChange
  | .instantiation => .instantiation
  | .noClassDefFound => .noClassDefFound
  | .noSuchField => .noSuchField
  | .noSuchMethod => .noSuchMethod
  | .outOfMemory => .outOfMemory

def Condition.listing : Condition → String
  | .arithmetic => "Arithmetic"
  | .arrayIndexOutOfBounds => "ArrayIndexOutOfBounds"
  | .arrayStore => "ArrayStore"
  | .classCast => "ClassCast"
  | .illegalMonitorState => "IllegalMonitorState"
  | .interrupted => "Interrupted"
  | .negativeArraySize => "NegativeArraySize"
  | .nullPointer => "NullPointer"
  | .abstractMethod => "AbstractMethod"
  | .illegalAccess => "IllegalAccess"
  | .incompatibleClassChange => "IncompatibleClassChange"
  | .instantiation => "Instantiation"
  | .noClassDefFound => "NoClassDefFound"
  | .noSuchField => "NoSuchField"
  | .noSuchMethod => "NoSuchMethod"
  | .outOfMemory => "OutOfMemory"

def LinkError.condition? : LinkError → Option Condition
  | .classNotFound _ => some .noClassDefFound
  | .illegalAccess _ _ => some .illegalAccess
  | .noSuchField _ => some .noSuchField
  | .noSuchMethod _ => some .noSuchMethod
  | .extendsInterface _ _ | .implementsClass _ _ => some .incompatibleClassChange
  | .malformed _ _ => none

inductive MonitorAction where
  | exit
  | wait
  | notify
  deriving DecidableEq, Repr

def MonitorAction.text : MonitorAction → String
  | .exit => "exit"
  | .wait => "wait on"
  | .notify => "notify"

inductive Cause where
  | nullReceiver (context : String)
  | nullArgument (context : String)
  | nullPropertyName
  | nullClassName
  | nullArrayClass
  | divisionByZero
  | indexOutOfBounds (index : Int32) (length : Nat)
  | copyOutOfBounds (length source dest : Int32)
  | copyOfNonArrays
  | copyElementTypes
  | copyReferences
  | elementStored (element array : ClassName)
  | elementCopied (element array : ClassName)
  | cast (object target : ClassName)
  | notHeld (action : MonitorAction)
  | interruptedWaiting
  | interruptedSleeping
  | negativeSize (n : Int32)
  | bodiless (m : MethodRef)
  | bodilessOn (m : MethodRef) (runtime : ClassName)
  | bodilessFrom (m : MethodRef) (context : ClassName)
  | finalWrite (f : FieldRef) (initializer : MemberName)
  | methodNotStatic (m : MethodRef)
  | methodStatic (m : MethodRef)
  | fieldNotStatic (f : FieldRef)
  | fieldStatic (f : FieldRef)
  | notImplemented (runtime interface : ClassName)
  | notInstantiable (c : ClassName)
  | tooLarge (length : Nat) (c : ClassName)
  | noEntry (m : MethodRef)
  | badClassName (e : NameError)
  | notArrayClass (c : ClassName)
  | link (c : Condition) (e : LinkError)
  | host (c : Condition) (text : String)
  deriving DecidableEq, Repr

namespace Cause

def condition : Cause → Condition
  | .nullReceiver _ | .nullArgument _ | .nullPropertyName | .nullClassName | .nullArrayClass =>
      .nullPointer
  | .divisionByZero => .arithmetic
  | .indexOutOfBounds _ _ | .copyOutOfBounds _ _ _ => .arrayIndexOutOfBounds
  | .copyOfNonArrays | .copyElementTypes | .copyReferences | .elementStored _ _
  | .elementCopied _ _ => .arrayStore
  | .cast _ _ => .classCast
  | .notHeld _ => .illegalMonitorState
  | .interruptedWaiting | .interruptedSleeping => .interrupted
  | .negativeSize _ => .negativeArraySize
  | .bodiless _ | .bodilessOn _ _ | .bodilessFrom _ _ => .abstractMethod
  | .finalWrite _ _ => .illegalAccess
  | .methodNotStatic _ | .methodStatic _ | .fieldNotStatic _ | .fieldStatic _
  | .notImplemented _ _ | .notArrayClass _ => .incompatibleClassChange
  | .notInstantiable _ => .instantiation
  | .tooLarge _ _ => .outOfMemory
  | .noEntry _ => .noSuchMethod
  | .badClassName _ => .noClassDefFound
  | .link c _ => c
  | .host c _ => c

def fieldText (f : FieldRef) : String := f.klass.text ++ "." ++ f.name.text

def message : Cause → String
  | .nullReceiver context => "null receiver for " ++ context
  | .nullArgument context => "null argument to " ++ context
  | .nullPropertyName => "null property name"
  | .nullClassName => "null class name"
  | .nullArrayClass => "null array class"
  | .divisionByZero => "/ by zero"
  | .indexOutOfBounds index length =>
      "index " ++ toString index.toInt ++ " out of bounds for length " ++ toString length
  | .copyOutOfBounds length source dest =>
      "arraycopy of " ++ toString length.toInt ++ " elements from " ++ toString source.toInt
        ++ " to " ++ toString dest.toInt
  | .copyOfNonArrays => "arraycopy between non-arrays"
  | .copyElementTypes => "array element types differ"
  | .copyReferences => "reference into primitive array"
  | .elementStored element array => element.text ++ " stored into " ++ array.text
  | .elementCopied element array => element.toSource ++ " stored into " ++ array.text
  | .cast object target => object.toSource ++ " cannot be cast to " ++ target.toSource
  | .notHeld action => "cannot " ++ action.text ++ " a monitor that is not held"
  | .interruptedWaiting => "interrupted while waiting"
  | .interruptedSleeping => "interrupted while sleeping"
  | .negativeSize n => toString n.toInt
  | .bodiless m => m.text
  | .bodilessOn m runtime => m.klass.text ++ "." ++ m.name.text ++ " on " ++ runtime.text
  | .bodilessFrom m context => m.klass.text ++ "." ++ m.name.text ++ " from " ++ context.text
  | .finalWrite f initializer =>
      "final field " ++ fieldText f ++ " written outside of " ++ initializer.text
  | .methodNotStatic m => m.text ++ " is not static"
  | .methodStatic m => m.text ++ " is not an instance method"
  | .fieldNotStatic f => fieldText f ++ " is not static"
  | .fieldStatic f => fieldText f ++ " is not an instance field"
  | .notImplemented runtime interface =>
      runtime.text ++ " does not implement " ++ interface.text
  | .notInstantiable c => c.text
  | .tooLarge length c => toString length ++ " elements of " ++ c.text
  | .noEntry m => "no static " ++ m.name.text ++ m.type.text ++ " on " ++ m.klass.text
  | .badClassName e => e.message
  | .notArrayClass c => c.text ++ " is not an array class"
  | .link _ e => e.message
  | .host _ text => text

end Cause

/-- What never happens to well-formed code over a complete table of natives. -/
inductive Fault where
  | kindMismatch (expected found : Kind)
  | notArrayClass (c : ClassName)
  | notArray (c : ClassName)
  | slotOutOfRange (slot : Nat) (c : ClassName)
  | arrayWithoutSlots
  | noSuchObject
  | noCode (m : MethodRef)
  | argumentWidth (m : MethodRef) (expected found : Nat)
  | stackUnderflow
  | upperHalf (slot : Nat)
  | unset (slot : Nat)
  | localOutOfRange (slot : Nat)
  | noFrame
  | handlerType (c : ClassName) (e : LinkError)
  | missingHook (m : MethodRef)
  | noMessageConstructor (c : ClassName)
  | noStringConstructor
  | notString (c : ClassName)
  | noStringValue
  | stringBacking (e : ElementKind)
  | notBoxClass (c : ClassName)
  | cannotBox (k : Kind) (c : ClassName)
  | notBox (c : ClassName)
  | blankStep
  | ranOff (m : MethodRef) (pc : Nat)
  | wrongKind (i : Instruction) (found : Kind)
  | frameVanished
  | returned (m : MethodRef) (found : Option Kind)
  | noReceiver (m : MethodRef)
  | readFrom (f : FieldRef) (c : ClassName)
  | writtenTo (f : FieldRef) (c : ClassName)
  | castOf (found : Kind)
  | storedKind (found : Kind) (f : FieldRef)
  | elementKind (i : Instruction) (found : ElementKind)
  | badComponent (c : ClassName) (e : DescriptorError)
  | dimensions (c : ClassName) (count : Nat)
  | noDimensions
  | noArrayComponents (c : ClassName)
  | splitWide (width : Nat)
  | noBinding (m : MethodRef)
  | withoutReceiver (m : MethodRef)
  | missingArguments (m : MethodRef)
  | missingArgument (index : Nat)
  | argumentShape (shown expected : String)
  | voidReturned (m : MethodRef) (shown : String)
  | bridgeShape (shown : String) (type : FieldType)
  | namelessClassObject
  | noCallIndex
  | arrayNewOf (shown : String)
  | unimplemented (code : Int32)
  | couldNotRaise (c : ClassName) (message : String)
  | couldNotRaiseTrap (shown : String)
  | noHostThread (reason : String)
  | link (e : LinkError)
  | host (text : String)
  deriving DecidableEq, Repr

def Fault.message : Fault → String
  | .kindMismatch expected found => "expected " ++ expected.name ++ " but found " ++ found.name
  | .notArrayClass c => c.text ++ " is not an array class"
  | .notArray c => c.text ++ " is not an array"
  | .slotOutOfRange slot c => "field slot " ++ toString slot ++ " out of range on " ++ c.text
  | .arrayWithoutSlots => "arrays have no field slots"
  | .noSuchObject => "no such object"
  | .noCode m => m.text ++ " has no code"
  | .argumentWidth m expected found =>
      m.text ++ " expects " ++ toString expected ++ " argument slots but got " ++ toString found
  | .stackUnderflow => "operand stack underflow"
  | .upperHalf slot => "local " ++ toString slot ++ " is the second half of a wide value"
  | .unset slot => "local " ++ toString slot ++ " is unset"
  | .localOutOfRange slot => "local " ++ toString slot ++ " out of range"
  | .noFrame => "no frame to execute in"
  | .handlerType c e => "could not load handler type " ++ c.text ++ ": " ++ e.message
  | .missingHook m => "uncaught exception handler " ++ m.text ++ " is missing"
  | .noMessageConstructor c => c.text ++ " has no message constructor"
  | .noStringConstructor => "java/lang/String has no ([C)V constructor"
  | .notString c => c.text ++ " is not a string"
  | .noStringValue => "java/lang/String has no value field"
  | .stringBacking e => "string backed by " ++ e.listing ++ " elements"
  | .notBoxClass c => c.text ++ " is not a box class"
  | .cannotBox k c => "cannot box a " ++ k.name ++ " value in " ++ c.text
  | .notBox c => c.text ++ " is not a box"
  | .blankStep => "stepped into a blank frame"
  | .ranOff m pc => m.text ++ " ran off the end of its code at " ++ toString pc
  | .wrongKind i found => i.listing ++ " found a " ++ found.name ++ " value"
  | .frameVanished => "host call frame vanished"
  | .returned m found => m.text ++ " returned " ++ (found.map Kind.name).getD "nothing"
  | .noReceiver m => "no receiver for " ++ m.text
  | .readFrom f c => Cause.fieldText f ++ " read from an instance of " ++ c.text
  | .writtenTo f c => Cause.fieldText f ++ " written to an instance of " ++ c.text
  | .castOf found => "checkcast on a " ++ found.name ++ " value"
  | .storedKind found f => found.name ++ " value stored into " ++ Cause.fieldText f
  | .elementKind i found =>
      i.listing ++ " used on an array of " ++ found.listing ++ " elements"
  | .badComponent c e => "bad component class " ++ c.text ++ ": " ++ e.message
  | .dimensions c count =>
      c.text ++ " cannot be allocated with " ++ toString count ++ " dimensions"
  | .noDimensions => "no dimensions left to allocate"
  | .noArrayComponents c => c.text ++ " has no array components"
  | .splitWide width => "stack shuffle would split a value of width " ++ toString width
  | .noBinding m => "no native binding for " ++ m.text
  | .withoutReceiver m => m.text ++ " called without a receiver"
  | .missingArguments m => m.text ++ " is missing arguments"
  | .missingArgument index => "native argument " ++ toString index ++ " is missing"
  | .argumentShape shown expected => "native argument " ++ shown ++ " is not " ++ expected
  | .voidReturned m shown => "void " ++ m.text ++ " returned " ++ shown
  | .bridgeShape shown type => shown ++ " cannot cross the native bridge as " ++ type.text
  | .namelessClassObject => "class object without a class name"
  | .noCallIndex => "system call without an index"
  | .arrayNewOf shown => "arrayNew of " ++ shown
  | .unimplemented code =>
      "guest code reached an unimplemented path (code " ++ toString code.toInt ++ ")"
  | .couldNotRaise c message => "could not raise " ++ c.text ++ " (" ++ message ++ ")"
  | .couldNotRaiseTrap shown => "could not raise " ++ shown
  | .noHostThread reason => "could not start host thread: " ++ reason
  | .link e => e.message
  | .host text => text

/-- The early end of an instruction: an object thrown, a condition not yet turned into one, a fault, or
the exit of the machine. -/
inductive Trap where
  | throw (o : ObjectId)
  | raise (cause : Cause)
  | fatal (fault : Fault)
  | exit
  deriving DecidableEq, Repr

def LinkError.trap (e : LinkError) : Trap :=
  match e.condition? with
  | some c => .raise (.link c e)
  | none => .fatal (.link e)

inductive RunError where
  | link (e : LinkError)
  | fatal (fault : Fault)
  | uncaught (c : ClassName)
  | exit (code : Int32)
  | noThread (id : Nat)
  | priority (n : Int32)
  deriving DecidableEq, Repr

def RunError.listing : RunError → String
  | .link _ => "Link"
  | .fatal _ => "Fatal"
  | .uncaught _ => "Uncaught"
  | .exit _ => "Exit"
  | .noThread _ | .priority _ => "InvalidArgument"

def RunError.message : RunError → String
  | .link e => e.message
  | .fatal fault => "fatal engine error: " ++ fault.message
  | .uncaught c => "uncaught guest exception " ++ c.text
  | .exit code => "machine exited with status " ++ toString code.toInt
  | .noThread id => "invalid argument: no thread with id " ++ toString id
  | .priority n => "invalid argument: thread priority " ++ toString n.toInt ++ " is out of range"

end BytecodeMachine
