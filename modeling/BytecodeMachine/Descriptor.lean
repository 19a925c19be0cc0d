import BytecodeMachine.Name

namespace BytecodeMachine

inductive BaseType where
  | byte
  | char
  | double
  | float
  | int
  | long
  | short
  | boolean
  deriving DecidableEq, Repr, Inhabited

inductive FieldType where
  | base (b : BaseType)
  | object (name : ClassName)
  | array (component : FieldType)
  deriving DecidableEq, Repr, Inhabited

structure MethodType where
  parameters : List FieldType
  result : Option FieldType
  deriving DecidableEq, Repr, Inhabited

inductive DescriptorError where
  | leftover (c : Char)
  | badBase (c : Char)
  | missingBase
  | unterminated (name : String)
  | badName (cause : NameError)
  | notObject
  | missingField
  | badField (c : Char)
  | notMethod
  deriving DecidableEq, Repr

namespace DescriptorError

def message : DescriptorError → String
  | .leftover c => "Unexpected leftover input '" ++ c.toString ++ "'"
  | .badBase c => "Invalid base type character '" ++ c.toString ++ "'"
  | .missingBase => "Missing base type character"
  | .unterminated name => "Missing terminator for 'L" ++ name ++ "'"
  | .badName cause => cause.message
  | .notObject => "Expected object type to start with `L`"
  | .missingField => "Missing field type"
  | .badField c => "Invalid field type character '" ++ c.toString ++ "'"
  | .notMethod => "Expected '(' for method"

def atEnd : DescriptorError → Bool
  | .missingBase | .unterminated _ | .missingField => true
  | _ => false

end DescriptorError

/-- A reader of a start of the text, which hands on what follows. -/
abbrev Reader (α : Type) := List Char → Except DescriptorError (α × List Char)

def Reader.all {α : Type} (r : Reader α) (s : String) : Except DescriptorError α :=
  match r s.toList with
  | .error e => .error e
  | .ok (a, []) => .ok a
  | .ok (_, c :: _) => .error (.leftover c)

theorem Reader.of_all {α : Type} {r : Reader α} {s : String} {a : α} (h : r.all s = .ok a) :
    r s.toList = .ok (a, []) := by
  simp only [all] at h
  split at h
  · simp at h
  · rename_i hr
    rw [hr]
    simpa using h
  · simp at h

namespace BaseType

def code : BaseType → Char
  | .byte => 'B'
  | .char => 'C'
  | .double => 'D'
  | .float => 'F'
  | .int => 'I'
  | .long => 'J'
  | .short => 'S'
  | .boolean => 'Z'

def primitiveName : BaseType → String
  | .byte => "byte"
  | .char => "char"
  | .double => "double"
  | .float => "float"
  | .int => "int"
  | .long => "long"
  | .short => "short"
  | .boolean => "boolean"

def width : BaseType → Nat
  | .double | .long => 2
  | _ => 1

def all : List BaseType :=
  [.boolean, .byte, .char, .short, .int, .long, .float, .double]

def ofCode? (c : Char) : Option BaseType :=
  all.find? fun b => b.code = c

theorem ofCode?_code (b : BaseType) : ofCode? b.code = some b := by
  cases b <;> rfl

theorem code_of_ofCode? {c : Char} {b : BaseType} (h : ofCode? c = some b) : b.code = c := by
  simpa [ofCode?] using List.find?_some h

def read : Reader BaseType
  | [] => .error .missingBase
  | c :: rest =>
      match ofCode? c with
      | some b => .ok (b, rest)
      | none => .error (.badBase c)

def render (b : BaseType) : List Char := [b.code]

end BaseType

namespace ClassName

def readBody : Reader ClassName := fun cs =>
  let name := String.ofList (cs.takeWhile (· ≠ ';'))
  match cs.dropWhile (· ≠ ';') with
  | [] => .error (.unterminated name)
  | _ :: rest =>
      match ofString name with
      | .ok n => .ok (n, rest)
      | .error e => .error (.badName e)

def read : Reader ClassName
  | 'L' :: cs => readBody cs
  | _ => .error .notObject

def render (n : ClassName) : List Char :=
  'L' :: n.text.toList ++ [';']

theorem text_of_ofString {s : String} {n : ClassName} (h : ofString s = .ok n) : n.text = s := by
  simp only [ofString, Except.map] at h
  split at h
  · simp at h
  · simp only [Except.ok.injEq] at h
    rw [← h]

theorem eq_of_readBody {cs rest : List Char} {n : ClassName}
    (h : readBody cs = .ok (n, rest)) : cs = n.text.toList ++ ';' :: rest := by
  simp only [readBody] at h
  split at h
  · simp at h
  · rename_i c tail hd
    split at h
    · rename_i hn
      simp only [Except.ok.injEq, Prod.mk.injEq] at h
      have hc : c = ';' := by
        have := List.head?_dropWhile_not (fun c : Char => decide (c ≠ ';')) cs
        rw [hd] at this
        simpa using this
      subst hc
      rw [← h.1, text_of_ofString hn, ← h.2, String.toList_ofList, ← hd,
        List.takeWhile_append_dropWhile]
    · simp at h

end ClassName

namespace FieldType

def int : FieldType := .base .int
def long : FieldType := .base .long
def string : FieldType := .object .string
def chars : FieldType := .array (.base .char)

def width : FieldType → Nat
  | .base b => b.width
  | _ => 1

def isReference : FieldType → Bool
  | .base _ => false
  | _ => true

def render : FieldType → List Char
  | .base b => b.render
  | .object n => n.render
  | .array t => '[' :: t.render

def text (t : FieldType) : String := String.ofList t.render

def read : Reader FieldType
  | [] => .error .missingField
  | c :: cs =>
      if c = '[' then
        match read cs with
        | .ok (t, rest) => .ok (.array t, rest)
        | .error e => .error e
      else if c = 'L' then
        match ClassName.readBody cs with
        | .ok (n, rest) => .ok (.object n, rest)
        | .error e => .error e
      else
        match BaseType.ofCode? c with
        | some b => .ok (.base b, cs)
        | none => .error (.badField c)

theorem eq_of_read {cs rest : List Char} {t : FieldType}
    (h : read cs = .ok (t, rest)) : cs = t.render ++ rest := by
  induction cs generalizing t rest with
  | nil => simp [read] at h
  | cons c cs ih =>
      simp only [read] at h
      split at h
      · rename_i hc
        split at h
        · rename_i hr
          simp only [Except.ok.injEq, Prod.mk.injEq] at h
          rw [ih hr, ← h.1, ← h.2, hc]
          rfl
        · simp at h
      · split at h
        · rename_i hc
          split at h
          · rename_i hr
            simp only [Except.ok.injEq, Prod.mk.injEq] at h
            rw [ClassName.eq_of_readBody hr, ← h.1, ← h.2, hc]
            simp [render, ClassName.render]
          · simp at h
        · split at h
          · rename_i hb
            simp only [Except.ok.injEq, Prod.mk.injEq] at h
            rw [← h.1, ← h.2, ← BaseType.code_of_ofCode? hb]
            rfl
          · simp at h

theorem render_ne_nil (t : FieldType) : t.render ≠ [] := by
  cases t <;> simp [render, BaseType.render, ClassName.render]

theorem read_length {cs rest : List Char} {t : FieldType}
    (h : read cs = .ok (t, rest)) : rest.length < cs.length := by
  have := List.length_pos_iff.2 t.render_ne_nil
  rw [eq_of_read h, List.length_append]
  omega

def className? : FieldType → Option ClassName
  | .base _ => none
  | .object n => some n
  | .array t => (ClassName.ofString (FieldType.array t).text).toOption

def ofClassName (n : ClassName) : Except DescriptorError FieldType :=
  if n.isArray then Reader.all read n.text else .ok (.object n)

def depth : FieldType → Nat
  | .array t => t.depth + 1
  | _ => 0

end FieldType

namespace MethodType

def totalWidth : List FieldType → Nat
  | [] => 0
  | t :: ts => t.width + totalWidth ts

def slots (m : MethodType) (receiver : Bool) : Nat :=
  (if receiver then 1 else 0) + totalWidth m.parameters

def render (m : MethodType) : List Char :=
  '(' :: m.parameters.flatMap FieldType.render ++ ')' ::
    match m.result with
    | none => ['V']
    | some t => t.render

def text (m : MethodType) : String := String.ofList m.render

def readParameters (cs : List Char) : Except DescriptorError (List FieldType × List Char) :=
  match cs with
  | ')' :: rest => .ok ([], rest)
  | cs =>
      match _h : FieldType.read cs with
      | .error e => .error e
      | .ok (t, rest) =>
          match readParameters rest with
          | .error e => .error e
          | .ok (ts, rest) => .ok (t :: ts, rest)
termination_by cs.length
decreasing_by exact FieldType.read_length _h

def readResult : Reader (Option FieldType)
  | 'V' :: rest => .ok (none, rest)
  | cs =>
      match FieldType.read cs with
      | .error e => .error e
      | .ok (t, rest) => .ok (some t, rest)

def read : Reader MethodType
  | '(' :: cs =>
      match readParameters cs with
      | .error e => .error e
      | .ok (parameters, rest) =>
          match readResult rest with
          | .error e => .error e
          | .ok (result, rest) => .ok (⟨parameters, result⟩, rest)
  | _ => .error .notMethod

def void (parameters : List FieldType) : MethodType := ⟨parameters, none⟩

end MethodType

def BaseType.parse : String → Except DescriptorError BaseType := Reader.all BaseType.read

def ClassName.parse : String → Except DescriptorError ClassName := Reader.all ClassName.read

def FieldType.parse : String → Except DescriptorError FieldType := Reader.all FieldType.read

def MethodType.parse : String → Except DescriptorError MethodType := Reader.all MethodType.read

end BytecodeMachine
