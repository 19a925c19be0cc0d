import BytecodeMachine.Trap

namespace BytecodeMachine

open Ieee

namespace ElementKind

def ofType : FieldType → ElementKind
  | .base .boolean | .base .byte => .byte
  | .base .char => .char
  | .base .short => .short
  | .base .int => .int
  | .base .long => .long
  | .base .float => .float
  | .base .double => .double
  | _ => .reference

def Elem : ElementKind → Type
  | .byte => Int8
  | .char => UInt16
  | .short => Int16
  | .int => Int32
  | .long => Int64
  | .float => Single
  | .double => Double
  | .reference => Option ObjectId

def zero : (e : ElementKind) → e.Elem
  | .byte => (0 : Int8)
  | .char => (0 : UInt16)
  | .short => (0 : Int16)
  | .int => (0 : Int32)
  | .long => (0 : Int64)
  | .float => Single.zero
  | .double => Double.zero
  | .reference => none

def kind : ElementKind → Kind
  | .long => .long
  | .float => .float
  | .double => .double
  | .reference => .reference
  | _ => .int

def widen : (e : ElementKind) → e.Elem → Value
  | .byte, x => .int (Int8.toInt32 x)
  | .char, x => .int (UInt32.toInt32 (UInt16.toUInt32 x))
  | .short, x => .int (Int16.toInt32 x)
  | .int, x => .int x
  | .long, x => .long x
  | .float, x => .float x
  | .double, x => .double x
  | .reference, x => .ref x

def narrow? : (e : ElementKind) → Value → Option e.Elem
  | .byte, .int n => some n.toInt8
  | .char, .int n => some n.toUInt32.toUInt16
  | .short, .int n => some n.toInt16
  | .int, .int n => some n
  | .long, .long n => some n
  | .float, .float x => some x
  | .double, .double x => some x
  | .reference, .ref r => some r
  | _, _ => none

theorem kind_widen (e : ElementKind) (x : e.Elem) : (e.widen x).kind = e.kind := by
  cases e <;> rfl

theorem narrow?_isSome (e : ElementKind) (v : Value) :
    (e.narrow? v).isSome = true ↔ v.kind = e.kind := by
  cases e <;> cases v <;> simp [narrow?, Value.kind, kind] <;> rfl

end ElementKind

structure ArrayStorage where
  kind : ElementKind
  elems : Array kind.Elem

namespace ArrayStorage

def new (component : FieldType) (length : Nat) : ArrayStorage :=
  ⟨.ofType component, Array.replicate length (ElementKind.ofType component).zero⟩

def ofChars (cs : List UInt16) : ArrayStorage := ⟨.char, (cs : List UInt16).toArray⟩

def ofInts (ns : List Int32) : ArrayStorage := ⟨.int, (ns : List Int32).toArray⟩

def length (s : ArrayStorage) : Nat := s.elems.size

def chars? (s : ArrayStorage) : Option (List UInt16) :=
  match s with
  | ⟨.char, xs⟩ => some (xs : Array UInt16).toList
  | _ => none

def ints? (s : ArrayStorage) : Option (List Int32) :=
  match s with
  | ⟨.int, xs⟩ => some (xs : Array Int32).toList
  | _ => none

def refs? (s : ArrayStorage) : Option (List (Option ObjectId)) :=
  match s with
  | ⟨.reference, xs⟩ => some (xs : Array (Option ObjectId)).toList
  | _ => none

def checkIndex (s : ArrayStorage) (index : Int32) : Except Trap Nat :=
  if index < 0 || s.length ≤ index.toInt.toNat then
    .error (.raise (.indexOutOfBounds index s.length))
  else .ok index.toInt.toNat

def at? (s : ArrayStorage) (i : Nat) : Option Value :=
  s.elems[i]?.map s.kind.widen

def toList (s : ArrayStorage) : List Value :=
  s.elems.toList.map s.kind.widen

def load (s : ArrayStorage) (index : Int32) : Except Trap Value :=
  match s.checkIndex index with
  | .error t => .error t
  | .ok i => .ok ((s.at? i).getD .null)

def checkStore (s : ArrayStorage) (index : Int32) (v : Value) : Except Trap Nat :=
  match s.checkIndex index with
  | .error t => .error t
  | .ok i =>
      if v.kind = s.kind.kind then .ok i else .error (.fatal (.kindMismatch s.kind.kind v.kind))

def put (s : ArrayStorage) (i : Nat) (v : Value) : ArrayStorage :=
  match s with
  | ⟨e, xs⟩ =>
      match e.narrow? v with
      | some x => ⟨e, xs.setIfInBounds i x⟩
      | none => ⟨e, xs⟩

def store (s : ArrayStorage) (index : Int32) (v : Value) : Except Trap ArrayStorage :=
  (s.checkStore index v).map fun i => s.put i v

/-- Elements with `length` of them, from `dest` on, replaced by those of a source from `from`. -/
def splice {α : Type} (xs source : Array α) (start dest length : Nat) : Array α :=
  xs.extract 0 dest ++ source.extract start (start + length) ++ xs.extract (dest + length) xs.size

/-- Copies a range within one array, as if through a copy of it. -/
def copyWithin (s : ArrayStorage) (start dest length : Nat) : ArrayStorage :=
  ⟨s.kind, splice s.elems s.elems start dest length⟩

def copyFrom (s source : ArrayStorage) (start dest length : Nat) : Except Trap ArrayStorage :=
  if h : source.kind = s.kind then
    .ok ⟨s.kind, splice s.elems (h ▸ source.elems) start dest length⟩
  else .error (.raise .copyElementTypes)

end ArrayStorage

end BytecodeMachine
