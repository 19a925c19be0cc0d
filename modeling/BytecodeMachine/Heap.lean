import BytecodeMachine.ArrayStorage
import BytecodeMachine.Class
import BytecodeMachine.Monitor

namespace BytecodeMachine

inductive Body where
  | fields (values : Array Value)
  | array (s : ArrayStorage)

structure Object where
  klass : Class
  body : Body
  monitor : Option Monitor

namespace Object

def instanceOf (c : Class) : Object :=
  ⟨c, .fields (c.layout.map Value.default).toArray, none⟩

def ofStorage (c : Class) (s : ArrayStorage) : Object := ⟨c, .array s, none⟩

def isArray (o : Object) : Bool :=
  match o.body with
  | .array _ => true
  | .fields _ => false

def storage (o : Object) : Except Fault ArrayStorage :=
  match o.body with
  | .array s => .ok s
  | .fields _ => .error (.notArray o.klass.name)

def field (o : Object) (slot : Nat) : Except Fault Value :=
  match o.body with
  | .fields values =>
      match values[slot]? with
      | some v => .ok v
      | none => .error (.slotOutOfRange slot o.klass.name)
  | .array _ => .error .arrayWithoutSlots

def setField (o : Object) (slot : Nat) (v : Value) : Object :=
  match o with
  | ⟨c, .fields values, monitor⟩ => ⟨c, .fields (values.setIfInBounds slot v), monitor⟩
  | o => o

def setElement (o : Object) (i : Nat) (v : Value) : Object :=
  match o with
  | ⟨c, .array s, monitor⟩ => ⟨c, .array (s.put i v), monitor⟩
  | o => o

def setStorage (o : Object) (s : ArrayStorage) : Object :=
  { o with body := .array s }

end Object

structure Heap where
  objects : Array Object

namespace Heap

def empty : Heap := ⟨#[]⟩

def get? (h : Heap) (o : ObjectId) : Option Object := h.objects[o.index]?

def alloc (h : Heap) (o : Object) : ObjectId × Heap :=
  (⟨h.objects.size⟩, ⟨h.objects.push o⟩)

def modify (h : Heap) (o : ObjectId) (f : Object → Object) : Heap :=
  ⟨h.objects.modify o.index f⟩

theorem get?_alloc (h : Heap) (o : Object) (p : ObjectId) :
    (h.alloc o).2.get? p = if p = (h.alloc o).1 then some o else h.get? p := by
  obtain ⟨i⟩ := p
  simp only [get?, alloc, Array.getElem?_push, ObjectId.mk.injEq]

theorem get?_alloc_self (h : Heap) (x : Object) : (h.alloc x).2.get? (h.alloc x).1 = some x := by
  rw [get?_alloc, if_pos rfl]

theorem get?_fresh (h : Heap) (x : Object) : h.get? (h.alloc x).1 = none := by
  simp [get?, alloc]

theorem get?_alloc_of_some {h : Heap} {p : ObjectId} {x : Object} (o : Object)
    (hp : h.get? p = some x) : (h.alloc o).2.get? p = some x := by
  rw [get?_alloc, if_neg, hp]
  rintro rfl
  simp [get?, alloc] at hp

theorem get?_modify (h : Heap) (o p : ObjectId) (f : Object → Object) :
    (h.modify o f).get? p = if o = p then (h.get? p).map f else h.get? p := by
  obtain ⟨i⟩ := o
  obtain ⟨j⟩ := p
  simp only [get?, modify, Array.getElem?_modify, ObjectId.mk.injEq]

end Heap

end BytecodeMachine
