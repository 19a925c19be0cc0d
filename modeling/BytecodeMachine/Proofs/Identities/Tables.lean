import BytecodeMachine.Proofs.Loading
import BytecodeMachine.Proofs.Numberings
import BytecodeMachine.Proofs.ThreadRecords
import BytecodeMachine.SystemCall

namespace BytecodeMachine

theorem Object.klass_setField (o : Object) (k : Nat) (v : Value) :
    (o.setField k v).klass = o.klass := by
  unfold setField
  split <;> rfl

theorem Object.klass_setElement (o : Object) (k : Nat) (v : Value) :
    (o.setElement k v).klass = o.klass := by
  unfold setElement
  split <;> rfl

namespace ClassObjects

variable {c : ClassObjects} {o : ObjectId}

theorem get?_enter (n : ClassName) (o : ObjectId) (c : ClassObjects) (n' : ClassName) :
    (c.enter n o).2.get? n' = if n = n' then some ((c.get? n).getD o) else c.get? n' :=
  Entries.get?_put ..

theorem name?_enter (n : ClassName) (o : ObjectId) (c : ClassObjects) (p : ObjectId) :
    (c.enter n o).2.name? p = if (c.get? n).getD o = p then some n else c.name? p :=
  Entries.get?_put ..

def Inverse (c : ClassObjects) : Prop := ∀ n o, c.name? o = some n ↔ c.get? n = some o

theorem Inverse.enter (h : c.Inverse) (n : ClassName) (ho : ∀ n, c.get? n ≠ some o) :
    (c.enter n o).2.Inverse := by
  intro n' p
  rw [get?_enter, name?_enter]
  cases hn : c.get? n with
  | none =>
    rw [Option.getD_none]
    by_cases hp : o = p
    · subst hp
      by_cases hn' : n = n'
      · simp [hn']
      · simp [hn', ho n']
    · rw [if_neg hp, h]
      by_cases hn' : n = n'
      · subst hn'
        simp [hn, hp]
      · rw [if_neg hn']
  | some q =>
    rw [Option.getD_some]
    by_cases hp : q = p
    · subst hp
      by_cases hn' : n = n'
      · simp [hn']
      · have hq := (h n q).2 hn
        have hne : c.get? n' ≠ some q := fun hc => hn' (Option.some.inj (hq.symm.trans ((h n' q).2 hc)))
        simp [hn', hne]
    · rw [if_neg hp, h]
      by_cases hn' : n = n'
      · subst hn'
        simp [hn]
      · rw [if_neg hn']

end ClassObjects

namespace Machine

variable {m m' : Machine} {n : ClassName} {o : ObjectId}

def IsOf (m : Machine) (o : ObjectId) (c : ClassName) : Prop :=
  ∃ x, m.heap.get? o = some x ∧ x.klass.name = c

def IsMirror (m : Machine) (o : ObjectId) : Prop := m.IsOf o .klass

structure Mirrored (m : Machine) : Prop where
  mirrors : ∀ n o, m.classObjects.get? n = some o → m.IsMirror o
  inverse : m.classObjects.Inverse

theorem Mirrored.empty (h : m.classObjects = .empty) : m.Mirrored := by
  refine ⟨fun n o ho => ?_, fun n o => ?_⟩
  · rw [h] at ho
    cases ho
  · rw [h]
    exact ⟨nofun, nofun⟩

theorem Mirrored.get? (h : m.Mirrored) (hn : m.classObjects.get? n = some o) :
    m.classNameOf? o = some n :=
  (h.inverse n o).2 hn

theorem Mirrored.isMirror_of_classNameOf? (h : m.Mirrored) (hn : m.classNameOf? o = some n) :
    m.IsMirror o :=
  h.mirrors n o ((h.inverse n o).1 hn)

theorem classNameOf?_enroll (hn : m.classObjects.get? n = none) :
    (m.enroll n o).2.classNameOf? o = some n := by
  change (m.classObjects.enter n o).2.name? o = some n
  rw [ClassObjects.name?_enter, hn, Option.getD_none, if_pos rfl]

theorem Mirrored.enroll (h : m.Mirrored) (n : ClassName) (ho : m.IsMirror o)
    (hne : ∀ n, m.classObjects.get? n ≠ some o) : (m.enroll n o).2.Mirrored where
  mirrors n' p hp := by
    change (m.classObjects.enter n o).2.get? n' = some p at hp
    rw [ClassObjects.get?_enter] at hp
    split at hp
    · cases hn : m.classObjects.get? n with
      | none =>
        rw [hn] at hp
        cases hp
        exact ho
      | some q =>
        rw [hn] at hp
        cases hp
        exact h.mirrors n q hn
    · exact h.mirrors n' p hp
  inverse := h.inverse.enter n hne

structure Bears (m m' : Machine) : Prop where
  classObjects : m'.classObjects = m.classObjects
  klass : ∀ o x, m.heap.get? o = some x → ∃ x', m'.heap.get? o = some x' ∧ x'.klass = x.klass

theorem Bears.of_heap (classObjects : m'.classObjects = m.classObjects)
    (heap : m'.heap = m.heap) : m.Bears m' :=
  ⟨classObjects, fun _ x hx => ⟨x, heap ▸ hx, rfl⟩⟩

theorem Bears.refl (m : Machine) : m.Bears m := .of_heap rfl rfl

theorem Bears.trans {m1 m2 m3 : Machine} (h : m1.Bears m2) (h' : m2.Bears m3) : m1.Bears m3 where
  classObjects := h'.classObjects.trans h.classObjects
  klass o x hx := by
    obtain ⟨x2, hx2, hk⟩ := h.klass o x hx
    obtain ⟨x3, hx3, hk'⟩ := h'.klass o x2 hx2
    exact ⟨x3, hx3, hk'.trans hk⟩

theorem Bears.isOf (h : m.Bears m') {c : ClassName} (ho : m.IsOf o c) : m'.IsOf o c := by
  obtain ⟨x, hx, hn⟩ := ho
  obtain ⟨x', hx', hk⟩ := h.klass o x hx
  exact ⟨x', hx', hk ▸ hn⟩

theorem Mirrored.bears (h : m.Mirrored) (hb : m.Bears m') : m'.Mirrored :=
  ⟨fun n o ho => hb.isOf (h.mirrors n o (hb.classObjects ▸ ho)), hb.classObjects ▸ h.inverse⟩

def errors? (m : Machine) (thread : Nat) : Option (Vector Int32 systemCallCount) :=
  (m.record? thread).map (·.errors)

structure Retains (m m' : Machine) : Prop extends Bears m m' where
  interned : m'.interned = m.interned

theorem Retains.trans {m1 m2 m3 : Machine} (h : m1.Retains m2) (h' : m2.Retains m3) :
    m1.Retains m3 :=
  ⟨h.toBears.trans h'.toBears, h'.interned.trans h.interned⟩

structure Abides (m m' : Machine) : Prop extends Retains m m' where
  libraries : m'.libraries = m.libraries
  loaded : ClassTable.Loaded m.libraries m.classes m'.classes

theorem Abides.trans {m1 m2 m3 : Machine} (h : m1.Abides m2) (h' : m2.Abides m3) :
    m1.Abides m3 where
  toRetains := h.toRetains.trans h'.toRetains
  libraries := h'.libraries.trans h.libraries
  loaded := h.loaded.trans (h.libraries ▸ h'.loaded)

structure KeepsNumbers (m m' : Machine) : Prop where
  strings : m.strings.Extends m'.strings
  pointers : m.pointers.Extends m'.pointers

theorem KeepsNumbers.refl (m : Machine) : m.KeepsNumbers m := ⟨.refl _, .refl _⟩

theorem KeepsNumbers.trans {m1 m2 m3 : Machine} (h : m1.KeepsNumbers m2)
    (h' : m2.KeepsNumbers m3) : m1.KeepsNumbers m3 :=
  ⟨h.strings.trans h'.strings, h.pointers.trans h'.pointers⟩

theorem keepsNumbers_pointer (o : Option ObjectId) (m : Machine) : m.KeepsNumbers (m.pointer o).2 := by
  cases o with
  | none => exact .refl m
  | some o => exact ⟨.refl _, Numbering.extends_number o m.pointers⟩

theorem keepsNumbers_stringId (text : String) (m : Machine) : m.KeepsNumbers (m.stringId text).2 :=
  ⟨Numbering.extends_number text m.strings, .refl _⟩

structure Leaves (m m' : Machine) : Prop extends Abides m m' where
  numbers : m.KeepsNumbers m'
  errors : ∀ i, m'.errors? i = m.errors? i

theorem Leaves.of_bears (h : m.Bears m') (libraries : m'.libraries = m.libraries)
    (classes : m'.classes = m.classes) (interned : m'.interned = m.interned)
    (threads : m'.threads = m.threads) (numbers : m.KeepsNumbers m') : m.Leaves m' where
  toBears := h
  interned := interned
  libraries := libraries
  loaded := classes ▸ .refl
  numbers := numbers
  errors i := by rw [errors?, record?, threads, errors?, record?]

theorem Leaves.refl (m : Machine) : m.Leaves m := .of_bears (.refl m) rfl rfl rfl rfl (.refl m)

theorem Leaves.trans {m1 m2 m3 : Machine} (h : m1.Leaves m2) (h' : m2.Leaves m3) :
    m1.Leaves m3 :=
  ⟨h.toAbides.trans h'.toAbides, h.numbers.trans h'.numbers,
    fun i => (h'.errors i).trans (h.errors i)⟩

theorem leaves_note (e : Event) (m : Machine) : m.Leaves (m.note e) :=
  .of_bears (.of_heap rfl rfl) rfl rfl rfl rfl ⟨.refl _, .refl _⟩

theorem leaves_modify {f : Object → Object} (h : ∀ x, (f x).klass = x.klass) (o : ObjectId)
    (m : Machine) : m.Leaves { m with heap := m.heap.modify o f } := by
  refine .of_bears ⟨rfl, fun p x hx => ?_⟩ rfl rfl rfl rfl ⟨.refl _, .refl _⟩
  rw [Heap.get?_modify, hx]
  split
  · exact ⟨f x, rfl, h x⟩
  · exact ⟨x, rfl, rfl⟩

theorem leaves_alloc (x : Object) (bytes : Nat) (m : Machine) : m.Leaves (m.alloc x bytes).2 :=
  .of_bears ⟨rfl, fun _ y hy => ⟨y, Heap.get?_alloc_of_some x hy, rfl⟩⟩ rfl rfl rfl rfl
    ⟨.refl _, .refl _⟩

theorem leaves_setMonitor (o : ObjectId) (monitor : Monitor) (m : Machine) :
    m.Leaves (m.setMonitor o monitor) :=
  leaves_modify (f := fun x => { x with monitor := some monitor }) (fun _ => rfl) o m

theorem errors?_modifyRecord {f : ThreadRecord → ThreadRecord} (h : ∀ r, (f r).errors = r.errors)
    (thread : Nat) (m : Machine) (i : Nat) : (m.modifyRecord thread f).errors? i = m.errors? i := by
  simp only [errors?, record?_modifyRecord]
  split
  · rw [Option.map_map]
    exact congrFun (congrArg Option.map (funext h)) _
  · rfl

theorem leaves_modifyRecord {f : ThreadRecord → ThreadRecord} (h : ∀ r, (f r).errors = r.errors)
    (thread : Nat) (m : Machine) : m.Leaves (m.modifyRecord thread f) :=
  ⟨⟨⟨.of_heap rfl rfl, rfl⟩, rfl, .refl⟩, ⟨.refl _, .refl _⟩, errors?_modifyRecord h thread m⟩

theorem errors?_setError (thread : Nat) (index code : Int32) (m : Machine) (i : Nat) :
    (m.setError thread index code).2.errors? i =
      if i = thread then
        (m.errors? i).map (·.set (ThreadRecord.errorSlot (errorSlot index)) code)
      else m.errors? i := by
  simp only [errors?, setError, record?_modifyRecord, eq_comm (a := thread)]
  split
  · rw [Option.map_map, Option.map_map]
    rfl
  · rfl

theorem leaves_takeInterrupt (thread : Nat) (m : Machine) : m.Leaves (m.takeInterrupt thread).2 :=
  leaves_modifyRecord (f := fun r => { r with interrupted := false }) (fun _ => rfl) thread m

theorem leaves_recordExit (code : Int32) (m : Machine) : m.Leaves (m.recordExit code) := by
  unfold recordExit
  split
  · exact .of_bears (.of_heap rfl rfl) rfl rfl rfl rfl ⟨.refl _, .refl _⟩
  · split
    · exact .refl m
    · exact leaves_note _ m

theorem leaves_setInitState (n : ClassName) (x : InitState) (m : Machine) :
    m.Leaves (m.setInitState n x) :=
  .of_bears (.of_heap rfl rfl) rfl rfl rfl rfl ⟨.refl _, .refl _⟩

theorem leaves_setStatic (f : Field) (v : Value) (m : Machine) : m.Leaves (m.setStatic f v) :=
  .of_bears (.of_heap rfl rfl) rfl rfl rfl rfl ⟨.refl _, .refl _⟩

theorem leaves_lock? {thread : Nat} (h : m.lock? thread = some m') : m.Leaves m' := by
  unfold lock? at h
  repeat' split at h
  all_goals cases h
  · exact .of_bears (.of_heap rfl rfl) rfl rfl rfl rfl ⟨.refl _, .refl _⟩
  · exact .of_bears (.of_heap rfl rfl) rfl rfl rfl rfl ⟨.refl _, .refl _⟩

theorem leaves_unlock (m : Machine) : m.Leaves m.unlock := by
  unfold unlock
  split
  · exact .refl m
  · exact .of_bears (.of_heap rfl rfl) rfl rfl rfl rfl ⟨.refl _, .refl _⟩

theorem leaves_resolve {α : Type} {res : List Library → Resolving α} {P : α → ClassTable → Prop}
    (h : ∀ libraries table, (res libraries).Keeps libraries P table) (m : Machine) :
    m.Leaves (m.resolve res).2 := by
  have noted (l : ClassTable) (m1 : Machine) (h1 : m.Leaves m1) :
      m.Leaves (l.foldl (fun m e => m.note (.loaded e.1)) m1) := by
    induction l generalizing m1 with
    | nil => exact h1
    | cons e l ih => exact ih _ (h1.trans (leaves_note _ m1))
  exact noted _ _ ⟨⟨⟨.of_heap rfl rfl, rfl⟩, rfl, (h m.libraries m.classes).1⟩,
    ⟨.refl _, .refl _⟩, fun _ => rfl⟩

end Machine

end BytecodeMachine
