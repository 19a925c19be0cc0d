import BytecodeMachine.Entries
import BytecodeMachine.Instruction

namespace BytecodeMachine

inductive Builtin where
  | getClass
  | hashCode
  | notify (all : Bool)
  | wait
  | className
  | intern
  | copyArray
  | currentTimeMillis
  | nanoTime
  | identityHashCode
  | getProperty
  | sleep
  | holdsLock
  deriving DecidableEq, Repr

inductive Intrinsic where
  | arrayLength
  | longPack
  | longUnpackHigh
  | longUnpackLow
  | doublePack
  | doubleToRawLongBits
  | longBitsToDouble
  | floatToRawIntBits
  | intBitsToFloat
  | objectToPointer
  | pointerToObject
  | systemCall (hasResult : Bool)
  | allocateObject
  | newArray
  | classByName
  | classOf
  | identityHashCode
  | holdsLock
  | monitorNotify
  | monitorWait
  deriving DecidableEq, Repr

/-- Functions that look at the bridge itself: they record what they are given, give it back, or answer
with a fixed value of each shape. -/
inductive Probe where
  | log
  | echo
  | depth
  | callback
  | void
  | null
  | int
  | long
  | float
  | double
  | string
  | chars
  | ints
  | strings
  | klass
  | throw
  | fatal
  | exit
  | asInt
  | asLong
  | asFloat
  | asDouble
  | asObject
  | asString
  | equal
  deriving DecidableEq, Repr

def Probe.ofName? : String → Option Probe
  | "log" => some .log
  | "echo" => some .echo
  | "depth" => some .depth
  | "callback" => some .callback
  | "void" => some .void
  | "null" => some .null
  | "int" => some .int
  | "long" => some .long
  | "float" => some .float
  | "double" => some .double
  | "string" => some .string
  | "chars" => some .chars
  | "ints" => some .ints
  | "strings" => some .strings
  | "class" => some .klass
  | "throw" => some .throw
  | "fatal" => some .fatal
  | "exit" => some .exit
  | "as_int" => some .asInt
  | "as_long" => some .asLong
  | "as_float" => some .asFloat
  | "as_double" => some .asDouble
  | "as_object" => some .asObject
  | "as_str" => some .asString
  | "equal" => some .equal
  | _ => none

inductive Native where
  | builtin (b : Builtin)
  | intrinsic (i : Intrinsic)
  | probe (p : Probe)
  deriving DecidableEq, Repr

structure NativeKey where
  klass : ClassName
  name : String
  type : String
  deriving DecidableEq, Repr

def MethodRef.nativeKey (m : MethodRef) : NativeKey :=
  ⟨m.klass, m.name.text, m.type.text⟩

abbrev NativeTable := Entries NativeKey Native

namespace NativeTable

def builtins : List (NativeKey × Builtin) :=
  [(⟨.object, "getClass", "()Ljava/lang/Class;"⟩, .getClass),
    (⟨.object, "hashCode", "()I"⟩, .hashCode),
    (⟨.object, "notify", "()V"⟩, .notify false),
    (⟨.object, "notifyAll", "()V"⟩, .notify true),
    (⟨.object, "wait", "(J)V"⟩, .wait),
    (⟨.object, "wait", "(JI)V"⟩, .wait),
    (⟨.klass, "getName", "()Ljava/lang/String;"⟩, .className),
    (⟨.string, "intern", "()Ljava/lang/String;"⟩, .intern),
    (⟨.system, "arraycopy", "(Ljava/lang/Object;ILjava/lang/Object;II)V"⟩, .copyArray),
    (⟨.system, "currentTimeMillis", "()J"⟩, .currentTimeMillis),
    (⟨.system, "nanoTime", "()J"⟩, .nanoTime),
    (⟨.system, "identityHashCode", "(Ljava/lang/Object;)I"⟩, .identityHashCode),
    (⟨.system, "getProperty", "(Ljava/lang/String;)Ljava/lang/String;"⟩, .getProperty),
    (⟨.thread, "sleep", "(J)V"⟩, .sleep),
    (⟨.thread, "holdsLock", "(Ljava/lang/Object;)Z"⟩, .holdsLock)]

def mostCallArguments : Nat := 8

def callParameters (arguments : Nat) : String :=
  "(" ++ String.ofList (List.replicate (arguments + 1) 'I') ++ ")"

def systemCalls : List (NativeKey × Intrinsic) :=
  (List.range (mostCallArguments + 1)).flatMap fun n =>
    [(⟨.intrinsics, "sysCall", callParameters n ++ "I"⟩, .systemCall true),
      (⟨.intrinsics, "sysCallV", callParameters n ++ "V"⟩, .systemCall false)]

def hooks : List (NativeKey × Intrinsic) :=
  [(⟨.intrinsics, "arrayLength", "(Ljava/lang/Object;)I"⟩, .arrayLength),
    (⟨.intrinsics, "longPack", "(II)J"⟩, .longPack),
    (⟨.intrinsics, "longUnpackHigh", "(J)I"⟩, .longUnpackHigh),
    (⟨.intrinsics, "longUnpackLow", "(J)I"⟩, .longUnpackLow),
    (⟨.intrinsics, "doublePack", "(II)D"⟩, .doublePack),
    (⟨.intrinsics, "doubleToRawLongBits", "(D)J"⟩, .doubleToRawLongBits),
    (⟨.intrinsics, "longBitsToDouble", "(J)D"⟩, .longBitsToDouble),
    (⟨.intrinsics, "floatToRawIntBits", "(F)I"⟩, .floatToRawIntBits),
    (⟨.intrinsics, "intBitsToFloat", "(I)F"⟩, .intBitsToFloat),
    (⟨.intrinsics, "objectToPointer", "(Ljava/lang/Object;)I"⟩, .objectToPointer),
    (⟨.intrinsics, "pointerToObject", "(I)Ljava/lang/Object;"⟩, .pointerToObject)]

def objectHooks : List (NativeKey × Intrinsic) :=
  [(⟨.objectAccess, "allocateObject", "(Ljava/lang/String;)Ljava/lang/Object;"⟩,
      .allocateObject),
    (⟨.objectAccess, "arrayNew", "(Ljava/lang/Class;I)Ljava/lang/Object;"⟩, .newArray),
    (⟨.objectAccess, "classByName", "(Ljava/lang/String;)Ljava/lang/Class;"⟩, .classByName),
    (⟨.objectAccess, "classOf", "(Ljava/lang/Object;)Ljava/lang/Class;"⟩, .classOf),
    (⟨.objectAccess, "identityHashCode", "(Ljava/lang/Object;)I"⟩, .identityHashCode),
    (⟨.objectAccess, "holdsLock", "(ILjava/lang/Object;)Z"⟩, .holdsLock),
    (⟨.objectAccess, "monitorNotify", "(Ljava/lang/Object;Z)I"⟩, .monitorNotify),
    (⟨.objectAccess, "monitorWait", "(Ljava/lang/Object;JI)I"⟩, .monitorWait)]

def standard : NativeTable :=
  builtins.map (fun (key, b) => (key, .builtin b))
    ++ (hooks ++ systemCalls ++ objectHooks).map fun (key, i) => (key, .intrinsic i)

end NativeTable

end BytecodeMachine
