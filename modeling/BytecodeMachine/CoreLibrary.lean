import BytecodeMachine.ClassFile

namespace BytecodeMachine.CoreLibrary

open FieldType

def any : FieldType := .object .object

def klassType : FieldType := .object .klass

def boolean : FieldType := .base .boolean

def char : FieldType := .base .char

def float : FieldType := .base .float

def double : FieldType := .base .double

def openMethod : MethodAccess := ⟨Flag.isPublic⟩

def openStatic : MethodAccess := ⟨Flag.isPublic ||| Flag.isStatic⟩

def openNative : MethodAccess := ⟨Flag.isPublic ||| Flag.isNative⟩

def openStaticNative : MethodAccess := ⟨Flag.isPublic ||| Flag.isStatic ||| Flag.isNative⟩

def hidden : FieldAccess := ⟨Flag.isPrivate⟩

def hiddenFinal : FieldAccess := ⟨Flag.isPrivate ||| Flag.isFinal⟩

def finalClass : ClassAccess := ⟨Flag.isPublic ||| Flag.isFinal⟩

def abstractClass : ClassAccess := ⟨Flag.isPublic ||| Flag.isAbstract⟩

def interfaceClass : ClassAccess :=
  ⟨Flag.isPublic ||| Flag.isInterface ||| Flag.isAbstract⟩

def klass (name superclass : ClassName) (access : ClassAccess) (interfaces : List ClassName)
    (fields : List FieldData) (methods : List MethodData) : ClassData :=
  ⟨name, some superclass, interfaces, access, none, fields, methods⟩

def method (access : MethodAccess) (name : String) (parameters : List FieldType)
    (result : Option FieldType) (maxLocals : Nat) (body : List Instruction) : MethodData :=
  ⟨access, ⟨name⟩, ⟨parameters, result⟩, some (.plain maxLocals body)⟩

def native (access : MethodAccess) (name : String) (parameters : List FieldType)
    (result : Option FieldType) : MethodData :=
  ⟨access, ⟨name⟩, ⟨parameters, result⟩, none⟩

def construct (c : ClassName) (parameters : List FieldType) : Instruction :=
  .invoke .special ⟨c, .constructor, .void parameters⟩

def loadThis : Instruction := .load .reference 0

def loads : Nat → List FieldType → List Instruction × Nat
  | slot, [] => ([], slot)
  | slot, t :: ts =>
      let (rest, last) := loads (slot + t.width) ts
      (.load t.kind slot :: rest, last)

def delegating (superclass : ClassName) (parameters : List FieldType) : MethodData :=
  let (arguments, slots) := loads 1 parameters
  method openMethod "<init>" parameters none slots
    (loadThis :: arguments ++ [construct superclass parameters, .returnVoid])

def storing (c superclass : ClassName) (field : MemberName) (t : FieldType) : MethodData :=
  method openMethod "<init>" [t] none 3
    [loadThis, construct superclass [], loadThis, .load t.kind 1, .putField ⟨c, field, t⟩,
      .returnVoid]

def getter (c : ClassName) (name : String) (field : MemberName) (t : FieldType) : MethodData :=
  method openMethod name [] (some t) 1
    [loadThis, .getField ⟨c, field, t⟩, .returnValue t.kind]

def interface (name : ClassName) : ClassData :=
  klass name .object interfaceClass [] [] []

def object : ClassData :=
  { klass .object .object .plain [] []
      [method openMethod "<init>" [] none 1 [.returnVoid],
        method openMethod "equals" [any] (some boolean) 2
          [loadThis, .load .reference 1, .ifSame .ne 5, .const (.int 1), .returnValue .int,
            .const (.int 0), .returnValue .int],
        method openMethod "wait" [] none 1
          [loadThis, .const (.long 0), .invoke .virtual ⟨.object, ⟨"wait"⟩, .void [long]⟩,
            .returnVoid],
        native openNative "getClass" [] (some klassType),
        native openNative "hashCode" [] (some int),
        native openNative "notify" [] none,
        native openNative "notifyAll" [] none,
        native openNative "wait" [long] none,
        native openNative "wait" [long, int] none] with
    superclass := none }

def classObject : ClassData :=
  klass .klass .object finalClass [] [] [native openNative "getName" [] (some string)]

def stringClass : ClassData :=
  let content : Instruction := .getField ⟨.string, .value, chars⟩
  klass .string .object finalClass [.serializable] [⟨hiddenFinal, .value, chars, none⟩]
    [storing .string .object .value chars,
      method openMethod "charAt" [int] (some char) 2
        [loadThis, content, .load .int 1, .arrayLoad .char, .returnValue .int],
      method openMethod "length" [] (some int) 1
        [loadThis, content, .arrayLength, .returnValue .int],
      method openMethod "toString" [] (some string) 1 [loadThis, .returnValue .reference],
      native openNative "intern" [] (some string)]

def system : ClassData :=
  klass .system .object finalClass [] []
    [native openStaticNative "arraycopy" [any, int, any, int, int] none,
      native openStaticNative "currentTimeMillis" [] (some long),
      native openStaticNative "nanoTime" [] (some long),
      native openStaticNative "identityHashCode" [any] (some int),
      native openStaticNative "getProperty" [string] (some string)]

def thread : ClassData :=
  klass .thread .object .plain [] []
    [native openStaticNative "sleep" [long] none,
      native openStaticNative "holdsLock" [any] (some boolean)]

def systemCalls : List MethodData :=
  (List.range 9).flatMap fun n =>
    [native openStaticNative "sysCall" (List.replicate (n + 1) int) (some int),
      native openStaticNative "sysCallV" (List.replicate (n + 1) int) none]

def intrinsics : ClassData :=
  klass .intrinsics .object finalClass [] []
    ([native openStaticNative "arrayLength" [any] (some int),
      native openStaticNative "longPack" [int, int] (some long),
      native openStaticNative "longUnpackHigh" [long] (some int),
      native openStaticNative "longUnpackLow" [long] (some int),
      native openStaticNative "doublePack" [int, int] (some double),
      native openStaticNative "doubleToRawLongBits" [double] (some long),
      native openStaticNative "longBitsToDouble" [long] (some double),
      native openStaticNative "floatToRawIntBits" [float] (some int),
      native openStaticNative "intBitsToFloat" [int] (some float),
      native openStaticNative "objectToPointer" [any] (some int),
      native openStaticNative "pointerToObject" [int] (some any)] ++ systemCalls)

def objectAccess : ClassData :=
  klass .objectAccess .object finalClass [] []
    [native openStaticNative "allocateObject" [string] (some any),
      native openStaticNative "arrayNew" [klassType, int] (some any),
      native openStaticNative "classByName" [string] (some klassType),
      native openStaticNative "classOf" [any] (some klassType),
      native openStaticNative "identityHashCode" [any] (some int),
      native openStaticNative "holdsLock" [int, any] (some boolean),
      native openStaticNative "monitorNotify" [any, boolean] (some int),
      native openStaticNative "monitorWait" [any, long, int] (some int)]

def number : ClassData :=
  klass .number .object abstractClass [.serializable] [] [delegating .object []]

def throwable : ClassData :=
  klass .throwable .object .plain [.serializable] [⟨hidden, .message, string, none⟩]
    [delegating .object [], storing .throwable .object .message string,
      getter .throwable "getMessage" .message string]

def throwables : List (ClassName × ClassName) :=
  [(.exception, .throwable), (.error, .throwable), (.runtimeException, .exception),
    (.interrupted, .exception), (.arithmetic, .runtimeException),
    (.arrayStore, .runtimeException), (.classCast, .runtimeException),
    (.illegalMonitorState, .runtimeException), (.negativeArraySize, .runtimeException),
    (.nullPointer, .runtimeException), (.indexOutOfBounds, .runtimeException),
    (.arrayIndexOutOfBounds, .indexOutOfBounds), (.linkage, .error),
    (.noClassDefFound, .linkage), (.incompatibleClassChange, .linkage),
    (.abstractMethod, .incompatibleClassChange), (.illegalAccess, .incompatibleClassChange),
    (.instantiation, .incompatibleClassChange), (.noSuchField, .incompatibleClassChange),
    (.noSuchMethod, .incompatibleClassChange), (.virtualMachine, .error),
    (.outOfMemory, .virtualMachine)]

def throwableClass (name superclass : ClassName) : ClassData :=
  klass name superclass .plain [] [] [delegating superclass [], delegating superclass [string]]

def boxes : List (ClassName × ClassName × BaseType × String) :=
  [(.boolean, .object, .boolean, "booleanValue"), (.character, .object, .char, "charValue"),
    (.byte, .number, .byte, "byteValue"), (.short, .number, .short, "shortValue"),
    (.integer, .number, .int, "intValue"), (.long, .number, .long, "longValue"),
    (.float, .number, .float, "floatValue"), (.double, .number, .double, "doubleValue")]

def box (name superclass : ClassName) (b : BaseType) (accessor : String) : ClassData :=
  let t := FieldType.base b
  klass name superclass finalClass [] [⟨hiddenFinal, .value, t, none⟩]
    [storing name superclass .value t, getter name accessor .value t,
      method openStatic "valueOf" [t] (some (.object name)) 2
        [.new name, .shuffle .dup, .load t.kind 0, construct name [t], .returnValue .reference]]

def classes : List ClassData :=
  [object, interface .cloneable, interface .serializable, classObject, stringClass, system, thread,
    intrinsics, objectAccess, number, throwable]
    ++ throwables.map (fun (name, superclass) => throwableClass name superclass)
    ++ boxes.map (fun (name, superclass, b, accessor) => box name superclass b accessor)

def library : Library where
  name := "core"
  classes := classes.map fun c => (c.name, c)
  resources := []

end BytecodeMachine.CoreLibrary
