import BytecodeMachine.Instruction
import BytecodeMachine.Text.Quoted

namespace BytecodeMachine

open Text

def BaseType.listing : BaseType → String
  | .byte => "Byte"
  | .char => "Char"
  | .double => "Double"
  | .float => "Float"
  | .int => "Int"
  | .long => "Long"
  | .short => "Short"
  | .boolean => "Boolean"

def BaseType.ofListing? (s : String) : Option BaseType :=
  all.find? fun b => b.listing = s

def FieldType.listing : FieldType → String
  | .base b => applied "Base" [b.listing]
  | .object n => applied "Object" [n.text]
  | .array t => applied "Array" [t.listing]

def optionListing : Option String → String
  | none => "None"
  | some s => applied "Some" [s]

def MethodType.listing (m : MethodType) : String :=
  labelled "MethodDescriptor"
    [("parameters", listed (m.parameters.map FieldType.listing)),
      ("return_type", optionListing (m.result.map FieldType.listing))]

def FieldRef.listing (f : FieldRef) : String :=
  labelled "FieldRef"
    [("class", f.klass.text), ("name", f.name.text), ("descriptor", f.type.listing)]

def MethodRef.listing (m : MethodRef) : String :=
  labelled "MethodRef"
    [("class", m.klass.text), ("name", m.name.text), ("descriptor", m.type.listing)]

def Constant.listing : Constant → String
  | .numeral (.int n) => applied "Integer" [toString n.toInt]
  | .numeral (.long n) => applied "Long" [toString n.toInt]
  | .numeral (.float x) => applied "Float" [x.text]
  | .numeral (.double x) => applied "Double" [x.text]
  | .string s => applied "String" [quoted s]
  | .klass n => applied "Class" [n.text]

def Comparison.listing : Comparison → String
  | .eq => "EQ"
  | .ne => "NE"
  | .lt => "LT"
  | .ge => "GE"
  | .gt => "GT"
  | .le => "LE"

def Comparison.ofListing? (s : String) : Option Comparison :=
  all.find? fun c => c.listing = s

def EqTest.listing : EqTest → String
  | .eq => "EQ"
  | .ne => "NE"

def EqTest.ofListing? (s : String) : Option EqTest :=
  [eq, ne].find? fun t => t.listing = s

def NaNPlace.listing : NaNPlace → String
  | .below => "L"
  | .above => "G"

def NaNPlace.ofListing? (s : String) : Option NaNPlace :=
  [below, above].find? fun p => p.listing = s

def Arithmetic.listing : Arithmetic → String
  | .add => "Add"
  | .sub => "Sub"
  | .mul => "Mul"
  | .div => "Div"
  | .rem => "Rem"

def Bitwise.listing : Bitwise → String
  | .and => "And"
  | .or => "Or"
  | .xor => "Xor"

def Shift.listing : Shift → String
  | .left => "Left"
  | .arithmeticRight => "ArithmeticRight"
  | .logicalRight => "LogicalRight"

def Shift.ofListing? (s : String) : Option Shift :=
  [left, arithmeticRight, logicalRight].find? fun t => t.listing = s

def Number.letter : Number → String
  | .int => "I"
  | .long => "L"
  | .float => "F"
  | .double => "D"

def IntegerWidth.letter : IntegerWidth → String
  | .int => "I"
  | .long => "L"

def Conversion.listing : Conversion → String
  | .i2l => "I2L"
  | .i2f => "I2F"
  | .i2d => "I2D"
  | .l2i => "L2I"
  | .l2f => "L2F"
  | .l2d => "L2D"
  | .f2i => "F2I"
  | .f2l => "F2L"
  | .f2d => "F2D"
  | .d2i => "D2I"
  | .d2l => "D2L"
  | .d2f => "D2F"
  | .i2b => "I2B"
  | .i2c => "I2C"
  | .i2s => "I2S"

def Shuffle.listing : Shuffle → String
  | .pop => "Pop"
  | .pop2 => "Pop2"
  | .dup => "Dup"
  | .dupX1 => "DupX1"
  | .dupX2 => "DupX2"
  | .dup2 => "Dup2"
  | .dup2X1 => "Dup2X1"
  | .dup2X2 => "Dup2X2"
  | .swap => "Swap"

def ElementKind.letter : ElementKind → String
  | .byte => "B"
  | .char => "C"
  | .short => "S"
  | .int => "I"
  | .long => "L"
  | .float => "F"
  | .double => "D"
  | .reference => "A"

def ElementKind.listing : ElementKind → String
  | .byte => "Byte"
  | .char => "Char"
  | .short => "Short"
  | .int => "Int"
  | .long => "Long"
  | .float => "Float"
  | .double => "Double"
  | .reference => "Reference"

def InvokeKind.listing : InvokeKind → String
  | .virtual => "Virtual"
  | .special => "Special"
  | .static => "Static"
  | .interface => "Interface"

def InvokeKind.ofListing? (s : String) : Option InvokeKind :=
  [virtual, special, static, interface].find? fun k => k.listing = s

namespace Instruction

def listing : Instruction → String
  | .nop => "Nop"
  | .nullConst => "AConstNull"
  | .const (.int n) => applied "IConst" [toString n.toInt]
  | .const (.long n) => applied "LConst" [toString n.toInt]
  | .const (.float x) => applied "FConst" [x.text]
  | .const (.double x) => applied "DConst" [x.text]
  | .ldc c => applied "Ldc" [c.listing]
  | .load k slot => applied (k.letter ++ "Load") [toString slot]
  | .store k slot => applied (k.letter ++ "Store") [toString slot]
  | .arrayLoad e => e.letter ++ "ALoad"
  | .arrayStore e => e.letter ++ "AStore"
  | .shuffle s => s.listing
  | .arithmetic op n => n.letter ++ op.listing
  | .negate n => n.letter ++ "Neg"
  | .shift s w => applied (w.letter ++ "Sh") [s.listing]
  | .bitwise op w => w.letter ++ op.listing
  | .increment slot delta => applied "IInc" [toString slot, toString delta.toInt]
  | .convert c => c.listing
  | .compareLong => "LCmp"
  | .compareFloat p => applied "FCmp" [p.listing]
  | .compareDouble p => applied "DCmp" [p.listing]
  | .ifZero c target => applied "If" [c.listing, toString target]
  | .ifInts c target => applied "IfICmp" [c.listing, toString target]
  | .ifSame t target => applied "IfACmp" [t.listing, toString target]
  | .ifNull t target => applied "IfNull" [t.listing, toString target]
  | .goto target => applied "Goto" [toString target]
  | .tableSwitch default low targets =>
      labelled "TableSwitch"
        [("default", toString default), ("low", toString low.toInt),
          ("targets", listed (targets.map toString))]
  | .lookupSwitch default targets =>
      labelled "LookupSwitch"
        [("default", toString default),
          ("targets", listed (targets.map fun (key, target) =>
            applied "" [toString key.toInt, toString target]))]
  | .returnValue k => k.letter ++ "Return"
  | .returnVoid => "Return"
  | .getStatic f => applied "GetStatic" [f.listing]
  | .putStatic f => applied "PutStatic" [f.listing]
  | .getField f => applied "GetField" [f.listing]
  | .putField f => applied "PutField" [f.listing]
  | .invoke k m => applied "Invoke" [k.listing, m.listing]
  | .new n => applied "New" [n.text]
  | .newArray b => applied "NewArray" [b.listing]
  | .newReferenceArray n => applied "ANewArray" [n.text]
  | .newMultiArray n dimensions => applied "MultiANewArray" [n.text, toString dimensions]
  | .arrayLength => "ArrayLength"
  | .throw => "AThrow"
  | .checkCast n => applied "CheckCast" [n.text]
  | .instanceOf n => applied "InstanceOf" [n.text]
  | .monitorEnter => "MonitorEnter"
  | .monitorExit => "MonitorExit"

def bare : List Instruction :=
  [.nop, .nullConst, .compareLong, .returnVoid, .arrayLength, .throw, .monitorEnter, .monitorExit]
    ++ [Shuffle.pop, .pop2, .dup, .dupX1, .dupX2, .dup2, .dup2X1, .dup2X2, .swap].map .shuffle
    ++ [ElementKind.byte, .char, .short, .int, .long, .float, .double, .reference].flatMap
      (fun e => [.arrayLoad e, .arrayStore e])
    ++ [Kind.int, .long, .float, .double, .reference].map .returnValue
    ++ [Number.int, .long, .float, .double].flatMap (fun n =>
      .negate n :: [Arithmetic.add, .sub, .mul, .div, .rem].map (.arithmetic · n))
    ++ [IntegerWidth.int, .long].flatMap (fun w =>
      [Bitwise.and, .or, .xor].map (.bitwise · w))
    ++ [Conversion.i2l, .i2f, .i2d, .l2i, .l2f, .l2d, .f2i, .f2l, .f2d, .d2i, .d2l, .d2f, .i2b,
      .i2c, .i2s].map .convert

def bareListings : List (String × Instruction) :=
  bare.map fun i => (i.listing, i)

def ofListing? (s : String) : Option Instruction :=
  bareListings.lookup s

end Instruction

end BytecodeMachine
