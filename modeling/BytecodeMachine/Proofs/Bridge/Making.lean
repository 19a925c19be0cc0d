import BytecodeMachine.Proofs.Bridge.Constructors
import BytecodeMachine.Proofs.Bridge.Reading
import BytecodeMachine.Proofs.Bridge.Units

namespace BytecodeMachine

open CoreLibrary

variable {i n : Nat} {t : Thread} {s : Scene} {m m1 m2 m3 : Machine} {o chars : ObjectId}
  {units : List UInt16}

namespace CoreLibrary

def stringValueField : Field := ⟨.string, .value, .chars, hiddenFinal, 0, some 0, none⟩

def stringConstructor : Method := keepingConstructor .string stringValueField

theorem declaredMethod?_stringConstructor :
    stringRecord.declaredMethod? .constructor (.void [.chars]) = some stringConstructor := rfl

theorem keeps_string : Keeps stringRecord stringValueField :=
  ⟨provides_record rfl, rfl, rfl, rfl, rfl, rfl, rfl⟩

end CoreLibrary

namespace Machine

variable {thread : Nat}

structure Adds (thread : Nat) (m m' : Machine) : Prop extends Continues thread m m' where
  heap : m.heap.Extends m'.heap
  classObjects : m'.classObjects = m.classObjects

theorem Adds.trans (h : m1.Adds thread m2) (h' : m2.Adds thread m3) : m1.Adds thread m3 :=
  ⟨h.toContinues.trans h'.toContinues, h.heap.trans h'.heap, h'.classObjects.trans h.classObjects⟩

theorem Prepares.adds (h : m1.Prepares thread m2) : m1.Adds thread m2 :=
  ⟨h.toContinues, fun _ _ hx => h.heap ▸ hx, h.classObjects⟩

theorem adds_alloc (x : Object) (bytes : Nat) (m : Machine) : m.Adds thread (m.alloc x bytes).2 :=
  ⟨(writes_alloc x bytes m).toContinues, Heap.extends_alloc _ x, rfl⟩

theorem Adds.modify {f : Object → Object} (h : m1.Adds thread m2) (ho : m1.heap.get? o = none)
    (hw : m2.Writes thread (m2.heap.modify o f) m3) : m1.Adds thread m3 :=
  ⟨h.toContinues.trans hw.toContinues, hw.heap ▸ h.heap.modify ho f,
    hw.classObjects.trans h.classObjects⟩

theorem Adds.keepsText (h : m1.Adds thread m2) : m1.KeepsText m2 := fun p x hp _ => h.heap p x hp

end Machine

namespace Exec

theorem gives_alloc (x : Object) (bytes : Nat) :
    (act (·.alloc x bytes)).Gives i t (fun p m => s.machine.Adds t.id m ∧
      s.machine.heap.get? p = none ∧ m.heap.get? p = some x) s := by
  refine gives_act.mono fun p m h => ?_
  obtain ⟨rfl, rfl⟩ := Prod.ext_iff.1 h
  exact ⟨Machine.adds_alloc x bytes _, Heap.get?_fresh _ x, Heap.get?_alloc_self _ x⟩

theorem gives_newObject (c : Class) :
    (newObject c).Gives i t (fun p m => s.machine.Adds t.id m ∧
      s.machine.heap.get? p = none ∧ m.heap.get? p = some (.instanceOf c)) s :=
  gives_alloc _ _

theorem gives_arrayOf {component : FieldType} {name : ClassName} {c : Class}
    (hs : s.machine.Serves t.id) (hn : (FieldType.array component).className? = some name)
    (hc : records.get? name = some c) (b : ArrayStorage) :
    (arrayOf component b).Gives i t (fun p m => s.machine.Adds t.id m ∧
      m.heap.get? p = some (.ofStorage c b)) s := by
  refine (gives_arrayClass hs hn hc).bind fun k s1 h1 => ?_
  obtain ⟨rfl, h1⟩ := h1
  exact (gives_alloc _ _).mono fun p m h => ⟨h1.adds.trans h.1, h.2.2⟩

theorem turns_pushBlank :
    (modify (·.push .blank) : Exec PUnit).Turns i t (t.holding (.blank :: t.frames))
      (fun _ m => m = s.machine) s :=
  turns_modify

theorem turns_takeResult {f : Frame} {rest : Frames} (hf : t.frames = f :: rest)
    (ht : f.tossed = none) :
    takeResult.Turns i t (t.holding rest) (fun r m => r = f.stack.head? ∧ m = s.machine) s := by
  refine gives_get.bind fun _ s1 h1 => ?_
  rw [h1.1]
  simp only [hf]
  refine turns_modify.bind fun _ s2 h2 => ?_
  rw [ht]
  exact gives_pure ⟨rfl, h2.trans h1.2⟩

theorem gives_invokeMethod {e : Engine} {c : Class} {f : Method} {arguments : List Value}
    {P : Option Value → Machine → Prop}
    (hcall : ∀ s', s.machine.Prepares t.id s'.machine → Ends (do
      enterMethod e c f arguments
      e.run (t.depth + 1)) i (t.holding (.blank :: t.frames)) (fun r t' s'' => r = .ok () ∧
        ∃ g, t' = t.holding (g :: t.frames) ∧ g.tossed = none ∧ P g.stack.head? s''.machine) s') :
    (invokeMethod e c f arguments).Gives i t P s := by
  refine (gives_note _).bind fun _ s1 h1 => gives_get.bind fun _ s2 h2 => ?_
  rw [h2.1]
  refine turns_pushBlank.bind fun _ s3 h3 => ?_
  have h3 : s.machine.Prepares t.id s3.machine := by
    rw [h3, h2.2, h1]
    exact Machine.prepares_note _ _
  refine ends_bind.2 (ends_attempt.2 (Ends.mono (hcall s3 h3) ?_))
  rintro r t' s4 ⟨rfl, g, rfl, hg, hp⟩
  exact (turns_takeResult rfl hg).mono fun _ m h => by rw [h.1, h.2]; exact hp

theorem gives_invokeConstructor {e : Engine} {c : Class} {f : Method} {g : Frame}
    {arguments : List Value} {P : Machine → Prop} (hn : f.isNative = false)
    (ha : f.isAbstract = false) (hc : f.code.isSome = true)
    (henter : Frame.enter c f arguments = .ok g)
    (hrun : ∀ s', s.machine.Prepares t.id s'.machine → (e.run (t.depth + 1)).Turns i
      (t.holding (g :: .blank :: t.frames)) (t.holding (.blank :: t.frames)) (fun _ => P) s') :
    (invokeMethod e c f arguments).Gives i t (fun _ => P) s := by
  refine gives_invokeMethod fun s1 h1 => ?_
  have hcall : Turns (do
      enterMethod e c f arguments
      e.run (t.depth + 1)) i (t.holding (.blank :: t.frames)) (t.holding (.blank :: t.frames))
      (fun _ => P) s1 :=
    (turns_enterMethod hn ha hc henter).bind fun _ s2 h2 => hrun s2 (h1.trans h2)
  exact Ends.mono hcall fun r t' s' ⟨ht, _, hr, h⟩ => ⟨hr, .blank, ht, rfl, h⟩

theorem gives_invokeString {x : Object} {w : Value} (hs : s.machine.Serves t.id)
    (ho : s.machine.heap.get? o = some x) (hk : x.klass = stringRecord) (hw : x.field 0 = .ok w) :
    (invokeMethod (.bounded (n + 8)) stringRecord stringConstructor
      [.object o, .object chars]).Gives i t
      (fun _ m => s.machine.Writes t.id
        (s.machine.heap.modify o (·.setField 0 (.object chars))) m) s := by
  have hx : x.klass.isAssignable stringRecord = true := hk ▸ Class.isAssignable_self _
  refine gives_invokeConstructor rfl rfl rfl (enter_keepingConstructor stringRecord rfl o chars)
    fun s1 h1 => ?_
  refine turns_runKeeping (n := n + 1) keeps_string (hs.continue h1.toContinues) rfl (Nat.le_refl _)
    (h1.heap ▸ ho) hx hw fun s2 h2 => (turns_run_within ?_).mono fun _ m h => ?_
  · simp [Thread.isWithin_iff, Thread.depth]
  · rw [h1.heap] at h2
    exact h ▸ h1.writes.trans h2

theorem gives_newStringOfUnits (hs : s.machine.Serves t.id) (units : List UInt16) :
    (newStringOfUnits (.bounded (n + 8)) units).Gives i t
      (fun p m => s.machine.Adds t.id m ∧ m.unitsOf p = .ok units) s := by
  refine (gives_arrayOf hs className?_chars rfl (.ofChars units)).bind fun chars s1 h1 => ?_
  obtain ⟨h1, hchars⟩ := h1
  refine (gives_record (hs.continue h1.toContinues) (c := stringRecord) rfl).bind fun c s2 h2 => ?_
  obtain ⟨rfl, h2⟩ := h2
  replace h1 := h1.trans h2.adds
  refine (setsUp_string (n + 5) i t s2 (hs.continue h1.toContinues)).bind fun _ s3 h3 => ?_
  replace h1 := h1.trans h3.adds
  replace hchars : s3.machine.heap.get? chars = _ := h3.adds.heap _ _ (h2.adds.heap _ _ hchars)
  simp only [declaredMethod?_stringConstructor]
  refine (gives_newObject stringRecord).bind fun o s4 h4 => ?_
  obtain ⟨h4, hfresh, ho⟩ := h4
  refine (gives_invokeString (w := .null) (hs.continue (h1.trans h4).toContinues) ho rfl rfl).bind
    fun _ s5 h5 => gives_pure ⟨h1.trans (h4.modify hfresh h5), ?_⟩
  have hkeep := h4.modify hfresh h5
  refine Machine.unitsOf_of_spells (x := (Object.instanceOf stringRecord).setField 0 (.object chars))
    (k := 0) (r := some chars) ⟨?_, rfl, rfl, rfl, _, .ofChars units, hkeep.heap _ _ hchars, rfl, rfl⟩
  rw [h5.heap]
  exact Heap.get?_modify_self _ ho

theorem gives_newString (hs : s.machine.Serves t.id) (text : String) :
    (newString (.bounded (n + 8)) text).Gives i t
      (fun p m => s.machine.Adds t.id m ∧ m.stringValue p = .ok text) s := by
  refine (gives_newStringOfUnits hs _).mono fun p m h => ⟨h.1, ?_⟩
  rw [Machine.stringValue_of_unitsOf h.2, Text.chars_units, String.ofList_toList]

end Exec

end BytecodeMachine
