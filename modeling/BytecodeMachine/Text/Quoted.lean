import BytecodeMachine.Text.Unprinted

namespace BytecodeMachine.Text

def hexDigits (n : Nat) : String :=
  String.ofList (Nat.toDigits 16 n)

def paddedHex (width n : Nat) : String :=
  let digits := Nat.toDigits 16 n
  String.ofList (List.replicate (width - digits.length) '0' ++ digits)

def escape (c : Char) : String :=
  match c with
  | '\x00' => "\\0"
  | '\t' => "\\t"
  | '\n' => "\\n"
  | '\r' => "\\r"
  | '"' => "\\\""
  | '\\' => "\\\\"
  | c => if isUnprinted c then "\\u\x7b" ++ hexDigits c.toNat ++ "\x7d" else c.toString

def quoted (s : String) : String :=
  "\"" ++ String.join (s.toList.map escape) ++ "\""

def listed (items : List String) : String :=
  "[" ++ ", ".intercalate items ++ "]"

def applied (name : String) (items : List String) : String :=
  name ++ "(" ++ ", ".intercalate items ++ ")"

def labelled (name : String) (items : List (String × String)) : String :=
  name ++ " \x7b " ++ ", ".intercalate (items.map fun (label, text) => label ++ ": " ++ text) ++ " \x7d"

end BytecodeMachine.Text
