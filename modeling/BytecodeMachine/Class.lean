import BytecodeMachine.ClassFile

/-!
Loaded classes. A class holds the classes above it, so whatever can be asked of its place in the
hierarchy is answered by recursion on the class itself.
-/

namespace BytecodeMachine

/-- A field of a loaded class: its place among the declared fields, and the slot that it takes in
instances (none if it is static). -/
structure Field where
  owner : ClassName
  name : MemberName
  type : FieldType
  access : FieldAccess
  index : Nat
  slot : Option Nat
  constant : Option Constant
  deriving DecidableEq, Repr

structure Method where
  owner : ClassName
  name : MemberName
  type : MethodType
  access : MethodAccess
  code : Option Code
  deriving DecidableEq, Repr

inductive ClassShape where
  | regular
  | array (component : FieldType)
  | primitive (b : BaseType)
  deriving DecidableEq, Repr

/-- `component` is the class of the elements of an array of references. -/
structure Class where
  name : ClassName
  superclass : Option Class
  interfaces : List Class
  component : Option Class
  access : ClassAccess
  source : Option String
  shape : ClassShape
  fields : List Field
  methods : List Method
  layout : List FieldType

namespace Field

def isStatic (f : Field) : Bool := f.access.isStatic

def isFinal (f : Field) : Bool := f.access.isFinal

def text (f : Field) : String := f.owner.text ++ "." ++ f.name.text

end Field

namespace Method

def isStatic (m : Method) : Bool := m.access.isStatic

def isNative (m : Method) : Bool := m.access.isNative

def isAbstract (m : Method) : Bool := m.access.isAbstract

def isPrivate (m : Method) : Bool := m.access.isPrivate

def argumentSlots (m : Method) : Nat := m.type.slots !m.isStatic

def ref (m : Method) : MethodRef := ⟨m.owner, m.name, m.type⟩

def text (m : Method) : String := m.ref.text

end Method

namespace Class

def isInterface (c : Class) : Bool := c.access.isInterface

def isAbstract (c : Class) : Bool := c.access.isAbstract

def isPublic (c : Class) : Bool := c.access.isPublic

def isArray (c : Class) : Bool :=
  match c.shape with
  | .array _ => true
  | _ => false

def componentType? (c : Class) : Option FieldType :=
  match c.shape with
  | .array t => some t
  | _ => none

def samePackage (c d : Class) : Bool :=
  c.name.package = d.name.package

def declaredField? (c : Class) (n : MemberName) : Option Field :=
  c.fields.find? fun f => f.name = n

def declaredMethod? (c : Class) (n : MemberName) (t : MethodType) : Option Method :=
  c.methods.find? fun m => m.name = n && m.type = t

def chain (c : Class) : List Class :=
  match c with
  | ⟨n, s, i, k, a, src, sh, f, m, l⟩ => ⟨n, s, i, k, a, src, sh, f, m, l⟩ :: chainOf s
where
  chainOf : Option Class → List Class
    | none => []
    | some c => chain c

/-- Where a field is looked for: the class, its interfaces one after another, then its superclass. -/
def fieldOrder (c : Class) : List Class :=
  match c with
  | ⟨n, s, i, k, a, src, sh, f, m, l⟩ =>
      ⟨n, s, i, k, a, src, sh, f, m, l⟩ :: (ofList i ++ ofOption s)
where
  ofOption : Option Class → List Class
    | none => []
    | some c => fieldOrder c
  ofList : List Class → List Class
    | [] => []
    | c :: cs => fieldOrder c ++ ofList cs

/-- The interfaces of the class with those above each of them, then the ones of its superclass. -/
def interfaceOrder (c : Class) : List Class :=
  match c with
  | ⟨_, s, i, _, _, _, _, _, _, _⟩ => ofList i ++ ofOption s
where
  ofOption : Option Class → List Class
    | none => []
    | some c => interfaceOrder c
  ofList : List Class → List Class
    | [] => []
    | c :: cs => c :: interfaceOrder c ++ ofList cs

def lookupField? (c : Class) (n : MemberName) : Option Field :=
  match c with
  | ⟨_, s, i, _, _, _, _, f, _, _⟩ =>
      match f.find? fun d => d.name = n with
      | some d => some d
      | none =>
          match ofList i n with
          | some d => some d
          | none => ofOption s n
where
  ofOption : Option Class → MemberName → Option Field
    | none, _ => none
    | some c, n => lookupField? c n
  ofList : List Class → MemberName → Option Field
    | [], _ => none
    | c :: cs, n =>
        match lookupField? c n with
        | some d => some d
        | none => ofList cs n

def interfaceMethod? (c : Class) (n : MemberName) (t : MethodType) : Option Method :=
  match c with
  | ⟨_, s, i, _, _, _, _, _, _, _⟩ =>
      match ofList i n t with
      | some m => some m
      | none => ofOption s n t
where
  ofOption : Option Class → MemberName → MethodType → Option Method
    | none, _, _ => none
    | some c, n, t => interfaceMethod? c n t
  ofList : List Class → MemberName → MethodType → Option Method
    | [], _, _ => none
    | c :: cs, n, t =>
        match c.declaredMethod? n t with
        | some m => some m
        | none =>
            match interfaceMethod? c n t with
            | some m => some m
            | none => ofList cs n t

def lookupMethod? (c : Class) (n : MemberName) (t : MethodType) : Option Method :=
  match c.chain.findSome? fun d => d.declaredMethod? n t with
  | some m => some m
  | none => c.interfaceMethod? n t

mutual

theorem lookupField?_eq (c : Class) (n : MemberName) :
    c.lookupField? n = c.fieldOrder.findSome? fun d => d.declaredField? n := by
  match c with
  | ⟨_, s, i, _, _, _, _, f, _, _⟩ =>
      have hi := lookupField?_ofList_eq i n
      have hs := lookupField?_ofOption_eq s n
      simp only [lookupField?, fieldOrder, List.findSome?_cons, List.findSome?_append, hi, hs,
        declaredField?]
      cases f.find? fun d => d.name = n <;> simp
      cases List.findSome? (fun d : Class => d.fields.find? fun d => d.name = n)
        (fieldOrder.ofList i) <;> simp

theorem lookupField?_ofOption_eq (s : Option Class) (n : MemberName) :
    lookupField?.ofOption s n
      = (fieldOrder.ofOption s).findSome? fun d => d.declaredField? n := by
  match s with
  | none => rfl
  | some c => exact lookupField?_eq c n

theorem lookupField?_ofList_eq (cs : List Class) (n : MemberName) :
    lookupField?.ofList cs n = (fieldOrder.ofList cs).findSome? fun d => d.declaredField? n := by
  match cs with
  | [] => rfl
  | c :: cs =>
      have hc := lookupField?_eq c n
      have hcs := lookupField?_ofList_eq cs n
      simp only [lookupField?.ofList, fieldOrder.ofList, List.findSome?_append, hc, hcs]
      cases c.fieldOrder.findSome? fun d => d.declaredField? n <;> simp

end

mutual

theorem interfaceMethod?_eq (c : Class) (n : MemberName) (t : MethodType) :
    c.interfaceMethod? n t = c.interfaceOrder.findSome? fun d => d.declaredMethod? n t := by
  match c with
  | ⟨_, s, i, _, _, _, _, _, _, _⟩ =>
      have hi := interfaceMethod?_ofList_eq i n t
      have hs := interfaceMethod?_ofOption_eq s n t
      simp only [interfaceMethod?, interfaceOrder, List.findSome?_append, hi, hs]
      cases (interfaceOrder.ofList i).findSome? fun d => d.declaredMethod? n t <;> simp

theorem interfaceMethod?_ofOption_eq (s : Option Class) (n : MemberName) (t : MethodType) :
    interfaceMethod?.ofOption s n t
      = (interfaceOrder.ofOption s).findSome? fun d => d.declaredMethod? n t := by
  match s with
  | none => rfl
  | some c => exact interfaceMethod?_eq c n t

theorem interfaceMethod?_ofList_eq (cs : List Class) (n : MemberName) (t : MethodType) :
    interfaceMethod?.ofList cs n t
      = (interfaceOrder.ofList cs).findSome? fun d => d.declaredMethod? n t := by
  match cs with
  | [] => rfl
  | c :: cs =>
      have hc := interfaceMethod?_eq c n t
      have hcs := interfaceMethod?_ofList_eq cs n t
      simp only [interfaceMethod?.ofList, interfaceOrder.ofList, List.cons_append,
        List.findSome?_cons, List.findSome?_append, hc, hcs]
      cases c.declaredMethod? n t <;> simp
      cases c.interfaceOrder.findSome? fun d => d.declaredMethod? n t <;> simp

end

theorem lookupMethod?_eq (c : Class) (n : MemberName) (t : MethodType) :
    c.lookupMethod? n t
      = (c.chain ++ c.interfaceOrder).findSome? fun d => d.declaredMethod? n t := by
  simp only [lookupMethod?, List.findSome?_append, interfaceMethod?_eq]
  cases c.chain.findSome? fun d => d.declaredMethod? n t <;> simp

def isSubclassOf (c ancestor : Class) : Bool :=
  c.chain.tail.any fun d => d.name = ancestor.name

def start (name : ClassName) (superclass : Option Class) (interfaces : List Class)
    (component : Option Class) (access : ClassAccess) (shape : ClassShape) : Class where
  name := name
  superclass := superclass
  interfaces := interfaces
  component := component
  access := access
  source := none
  shape := shape
  fields := []
  methods := []
  layout := (superclass.map (·.layout)).getD []

end Class

end BytecodeMachine
