import BytecodeMachine.Proofs.Boxing.Blocks
import BytecodeMachine.Proofs.Bridge.Boxes
import BytecodeMachine.Proofs.Identities

namespace BytecodeMachine

open CoreLibrary

variable {i limit k : Nat} {t : Thread} {s : Scene} {h : Heap} {o : ObjectId} {v : Value}
  {e : ClassName × ClassName × BaseType × String} {rest : Frames} {locals : Array Slot}

namespace CoreLibrary

def boxType (e : ClassName × ClassName × BaseType × String) : FieldType := .base e.2.2.1

def boxClass (e : ClassName × ClassName × BaseType × String) : Class :=
  boxRecord e.1 e.2.1 e.2.2.1 e.2.2.2

def numberConstructor : Method :=
  ⟨.number, .constructor, .void [], openMethod, some (.plain 1
    [loadThis, construct .object [], .returnVoid])⟩

def boxConstructor (e : ClassName × ClassName × BaseType × String) : Method :=
  ⟨e.1, .constructor, .void [boxType e], openMethod, some (.plain 3
    [loadThis, construct e.2.1 [], loadThis, .load (boxType e).kind 1,
      .putField ⟨e.1, .value, boxType e⟩, .returnVoid])⟩

def boxGetter (e : ClassName × ClassName × BaseType × String) : Method :=
  ⟨e.1, ⟨e.2.2.2⟩, ⟨[], some (boxType e)⟩, openMethod, some (.plain 1
    [loadThis, .getField ⟨e.1, .value, boxType e⟩, .returnValue (boxType e).kind])⟩

def boxMaker (e : ClassName × ClassName × BaseType × String) : Method :=
  ⟨e.1, ⟨"valueOf"⟩, ⟨[boxType e], some (.object e.1)⟩, openStatic, some (.plain 2
    [.new e.1, .shuffle .dup, .load (boxType e).kind 0, construct e.1 [boxType e],
      .returnValue .reference])⟩

theorem above_box : ∀ e ∈ boxes, e.2.1 = .object ∨ e.2.1 = .number := by decide +kernel

theorem declaredMethod?_maker : ∀ e ∈ boxes, (boxClass e).declaredMethod? ⟨"valueOf"⟩
    ⟨[boxType e], some (.object e.1)⟩ = some (boxMaker e) := by
  intro e he
  simp only [boxes, List.mem_cons, List.not_mem_nil, or_false] at he
  rcases he with rfl | rfl | rfl | rfl | rfl | rfl | rfl | rfl
  all_goals rfl

theorem declaredMethod?_getter : ∀ e ∈ boxes, (boxClass e).declaredMethod? ⟨e.2.2.2⟩
    ⟨[], some (boxType e)⟩ = some (boxGetter e) := by
  intro e he
  simp only [boxes, List.mem_cons, List.not_mem_nil, or_false] at he
  rcases he with rfl | rfl | rfl | rfl | rfl | rfl | rfl | rfl
  all_goals rfl

theorem lookupMethod?_boxConstructor : ∀ e ∈ boxes, (boxClass e).lookupMethod? .constructor
    (.void [boxType e]) = some (boxConstructor e) := by
  intro e he
  simp only [boxes, List.mem_cons, List.not_mem_nil, or_false] at he
  rcases he with rfl | rfl | rfl | rfl | rfl | rfl | rfl | rfl
  all_goals rfl

theorem firstField_box : ∀ e ∈ boxes, FirstField (boxClass e) (boxField e) := by
  intro e he
  have hprovided : Provides (boxClass e).name (boxClass e) := provides_record (get?_box e he)
  refine ⟨hprovided, ?_, ?_, rfl, rfl, ?_⟩
  all_goals
    simp only [boxes, List.mem_cons, List.not_mem_nil, or_false] at he
    rcases he with rfl | rfl | rfl | rfl | rfl | rfl | rfl | rfl
    all_goals rfl

theorem isInstantiable_box : ∀ e ∈ boxes, (boxClass e).isInstantiable = true := by
  intro e he
  simp only [boxes, List.mem_cons, List.not_mem_nil, or_false] at he
  rcases he with rfl | rfl | rfl | rfl | rfl | rfl | rfl | rfl
  all_goals rfl

theorem field_instanceOf_box (he : e ∈ boxes) :
    (Object.instanceOf (boxClass e)).field 0 = .ok (.default (boxType e)) := by
  simp [Object.instanceOf, Object.field, boxClass, boxType, layout_box e he]

theorem width_boxType (e : ClassName × ClassName × BaseType × String) (hv : v.fits (boxType e) = true) :
    (boxType e).width = v.width := (Value.width_of_fits hv).symm

end CoreLibrary

namespace Exec

variable {c : Class} {m : Method} {stack : List Value} {pc : Nat}

theorem passes_constructObject (hl : limit ≤ rest.length)
    (hx : (m.code.bind fun code => code.instructions[pc]?) = some (construct .object [])) :
    Passes limit 2 i t h (.going c m locals (.object o :: stack) pc :: rest)
      (.going c m locals stack (pc + 1) :: rest) := by
  have hcall : Passes limit 1 i t h (.going c m locals (.object o :: stack) pc :: rest)
      (.going objectRecord objectConstructor (Frame.localsOf [.object o] 1) [] 0 ::
        .going c m locals stack (pc + 1) :: rest) := by
    apply passes_construct (d := objectRecord) (f := objectConstructor) [] hl hx
    · exact provides_record rfl
    all_goals rfl
  have hreturn : Passes limit 1 i t h
      (.going objectRecord objectConstructor (Frame.localsOf [.object o] 1) [] 0 ::
        .going c m locals stack (pc + 1) :: rest) (.going c m locals stack (pc + 1) :: rest) :=
    passes_returnVoid (Nat.le_succ_of_le hl) rfl rfl
  exact hcall.trans hreturn

theorem passes_constructNumber (hl : limit ≤ rest.length)
    (hx : (m.code.bind fun code => code.instructions[pc]?) = some (construct .number [])) :
    Passes limit 5 i t h (.going c m locals (.object o :: stack) pc :: rest)
      (.going c m locals stack (pc + 1) :: rest) := by
  have hdeep : limit ≤ (Frame.going c m locals stack (pc + 1) :: rest).length :=
    Nat.le_succ_of_le hl
  let below := Frame.localsOf [.object o] 1
  have hcall : Passes limit 1 i t h (.going c m locals (.object o :: stack) pc :: rest)
      (.going numberRecord numberConstructor below [] 0 ::
        .going c m locals stack (pc + 1) :: rest) := by
    apply passes_construct (d := numberRecord) (f := numberConstructor) [] hl hx
    · exact provides_record rfl
    all_goals rfl
  have hthis : Passes limit 1 i t h
      (.going numberRecord numberConstructor below [] 0 :: .going c m locals stack (pc + 1) :: rest)
      (.going numberRecord numberConstructor below [.object o] 1 ::
        .going c m locals stack (pc + 1) :: rest) :=
    passes_local hdeep rfl rfl
  have hroot : Passes limit 2 i t h
      (.going numberRecord numberConstructor below [.object o] 1 ::
        .going c m locals stack (pc + 1) :: rest)
      (.going numberRecord numberConstructor below [] 2 ::
        .going c m locals stack (pc + 1) :: rest) :=
    passes_constructObject hdeep rfl
  have hreturn : Passes limit 1 i t h
      (.going numberRecord numberConstructor below [] 2 :: .going c m locals stack (pc + 1) :: rest)
      (.going c m locals stack (pc + 1) :: rest) :=
    passes_returnVoid hdeep rfl rfl
  exact ((hcall.trans hthis).trans hroot).trans hreturn

def aboveSteps (e : ClassName × ClassName × BaseType × String) : Nat :=
  if e.2.1 = .number then 5 else 2

theorem passes_constructAbove (he : e ∈ boxes) (hl : limit ≤ rest.length)
    (hx : (m.code.bind fun code => code.instructions[pc]?) = some (construct e.2.1 [])) :
    Passes limit (aboveSteps e) i t h (.going c m locals (.object o :: stack) pc :: rest)
      (.going c m locals stack (pc + 1) :: rest) := by
  rcases above_box e he with ha | ha
  · rw [aboveSteps, if_neg (by rw [ha]; decide)]
    exact passes_constructObject hl (ha ▸ hx)
  · rw [aboveSteps, if_pos ha]
    exact passes_constructNumber hl (ha ▸ hx)

section Values

variable (hv : v.fits (boxType e) = true)

include hv

theorem kind_boxType : (boxType e).kind = v.kind := by
  simpa [Value.fits, eq_comm] using hv

-- A value is in the slot after the arguments before it, whether it takes one more or not.
theorem argument_boxConstructor :
    (Frame.localsOf [.object o, v] 3)[1]? = some (.value v) := by
  cases v <;> rfl

theorem argument_boxMaker : (Frame.localsOf [v] 2)[0]? = some (.value v) := by
  cases v <;> rfl

theorem argumentWidth_boxConstructor :
    Frame.argumentWidth [.object o, v] = (boxConstructor e).argumentSlots := by
  have hstatic : (boxConstructor e).isStatic = false := (Method.isOpen _ rfl).1
  have htype : (boxConstructor e).type.parameters = [boxType e] := rfl
  simp [Method.argumentSlots, hstatic, htype, MethodType.slots, MethodType.totalWidth,
    Frame.argumentWidth, width_boxType e hv]
  rfl

theorem argumentWidth_boxMaker : Frame.argumentWidth [v] = (boxMaker e).argumentSlots := by
  have hstatic : (boxMaker e).isStatic = true := (by decide : openStatic.isStatic = true)
  have htype : (boxMaker e).type.parameters = [boxType e] := rfl
  simp [Method.argumentSlots, hstatic, htype, MethodType.slots, MethodType.totalWidth,
    Frame.argumentWidth, width_boxType e hv]

end Values

theorem crosses_boxConstructor {x : Object} {w : Value} (he : e ∈ boxes)
    (hs : s.machine.Serves t.id) (hl : limit ≤ rest.length) (hv : v.fits (boxType e) = true)
    (ho : s.machine.heap.get? o = some x) (hx : x.klass = boxClass e) (hw : x.field 0 = .ok w) :
    Crosses limit (aboveSteps e + 5) i
      (t.holding (.going (boxClass e) (boxConstructor e) (Frame.localsOf [.object o, v] 3) [] 0 ::
        rest)) (t.holding rest)
      (s.machine.Writes t.id (s.machine.heap.modify o (·.setField 0 v))) s := by
  let locals := Frame.localsOf [.object o, v] 3
  let frame := Frame.going (boxClass e) (boxConstructor e) locals
  have hfirst : ∀ h, Passes limit 1 i t h (frame [] 0 :: rest) (frame [.object o] 1 :: rest) :=
    fun h => passes_local hl rfl rfl
  have habove : ∀ h, Passes limit (aboveSteps e) i t h (frame [.object o] 1 :: rest)
      (frame [] 2 :: rest) := fun h => passes_constructAbove he hl rfl
  have hthis : ∀ h, Passes limit 1 i t h (frame [] 2 :: rest) (frame [.object o] 3 :: rest) :=
    fun h => passes_local hl rfl rfl
  have hvalue : ∀ h, Passes limit 1 i t h (frame [.object o] 3 :: rest)
      (frame [v, .object o] 4 :: rest) := fun h => by
    apply passes_local hl _ (argument_boxConstructor hv)
    rw [← kind_boxType hv]
    rfl
  have hreturn : ∀ h, Passes limit 1 i t h (frame [] 5 :: rest) rest :=
    fun h => passes_returnVoid hl rfl rfl
  have hoperands := (((hfirst s.machine.heap).trans (habove _)).trans (hthis _)).trans (hvalue _)
  have hrun : Crosses limit (1 + 1 + (1 + (1 + (aboveSteps e + 1)))) i
      (t.holding (frame [] 0 :: rest)) (t.holding rest)
      (s.machine.Writes t.id (s.machine.heap.modify o (·.setField 0 v))) s := by
    apply (hoperands s hs rfl).trans
    intro s1 h1
    have hs1 := hs.continue h1.toContinues
    have hk : x.klass.isAssignable (boxClass e) = true := hx ▸ Class.isAssignable_self _
    have hput : Crosses limit 1 i (t.holding (frame [v, .object o] 4 :: rest))
        (t.holding (frame [] 5 :: rest))
        (s1.machine.Writes t.id (s1.machine.heap.modify o (·.setField 0 v))) s1 :=
      crosses_putFirst hs1 hl (firstField_box e he) rfl rfl (h1.heap ▸ ho) hk hw hv
    apply hput.trans
    intro s2 h2
    apply (hreturn _ s2 (hs1.continue h2.toContinues) rfl).mono
    intro m h3
    rw [h1.heap] at h2
    exact (h1.writes.trans h2).prepare h3
  exact hrun.of_eq (by omega)

theorem setsUp_boxClass (he : e ∈ boxes) {n : Nat} (hn : setupBound ≤ n) :
    SetsUp (.bounded n) (boxClass e) := by
  obtain ⟨n, rfl⟩ : ∃ m, n = m + 4 := ⟨n - 4, by simp only [setupBound] at hn; omega⟩
  exact setsUp_box n he

theorem crosses_boxMaker (he : e ∈ boxes) (hs : s.machine.Serves t.id) {below : Frame}
    (hl : limit ≤ rest.length + 1) (hv : v.fits (boxType e) = true)
    (ho : o = (s.machine.heap.alloc (.instanceOf (boxClass e))).1) :
    Crosses limit (aboveSteps e + 10) i
      (t.holding (.going (boxClass e) (boxMaker e) (Frame.localsOf [v] 2) [] 0 :: below :: rest))
      (t.holding ({ below with stack := .object o :: below.stack } :: rest))
      (s.machine.Writes t.id ((s.machine.heap.alloc (.instanceOf (boxClass e))).2.modify o
        (·.setField 0 v))) s := by
  let locals := Frame.localsOf [v] 2
  let frame := Frame.going (boxClass e) (boxMaker e) locals
  let inner := Frame.going (boxClass e) (boxConstructor e) (Frame.localsOf [.object o, v] 3) [] 0
  let made := (s.machine.heap.alloc (.instanceOf (boxClass e))).2
  have hfield := firstField_box e he
  have hnew : Crosses limit 1 i (t.holding (frame [] 0 :: below :: rest))
      (t.holding (frame [.object o] 1 :: below :: rest)) (s.machine.Writes t.id made) s := by
    rw [ho]
    exact crosses_new hs hl hfield.provided hfield.innermost (isInstantiable_box e he) rfl
      fun n hn => setsUp_boxClass he hn
  have hdup : Passes limit 1 i t made (frame [.object o] 1 :: below :: rest)
      (frame [.object o, .object o] 2 :: below :: rest) := passes_dup hl rfl rfl
  have hvalue : Passes limit 1 i t made (frame [.object o, .object o] 2 :: below :: rest)
      (frame [v, .object o, .object o] 3 :: below :: rest) := by
    apply passes_local hl _ (argument_boxMaker hv)
    rw [← kind_boxType hv]
    rfl
  have hcall : Passes limit 1 i t made (frame [v, .object o, .object o] 3 :: below :: rest)
      (inner :: frame [.object o] 4 :: below :: rest) := by
    apply passes_construct (d := boxClass e) (f := boxConstructor e) [v] hl rfl
    · exact hfield.provided
    · rw [hfield.innermost]
      exact (by decide : finalClass.isPublic = true)
    · exact lookupMethod?_boxConstructor e he
    · rfl
    · rfl
    · rfl
    · rfl
    · rfl
    · exact argumentWidth_boxConstructor hv
  have hreturn : ∀ h, Passes limit 1 i t h (frame [.object o] 4 :: below :: rest)
      ({ below with stack := .object o :: below.stack } :: rest) :=
    fun h => passes_returnValue hl rfl rfl rfl
  have hopen : Crosses limit (1 + (1 + (1 + 1))) i (t.holding (frame [] 0 :: below :: rest))
      (t.holding (inner :: frame [.object o] 4 :: below :: rest))
      (s.machine.Writes t.id made) s := by
    apply hnew.trans
    intro s1 h1
    apply (((hdup.trans hvalue).trans hcall) s1 (hs.continue h1.toContinues) h1.heap).mono
    intro m h2
    exact h1.prepare h2
  have hrun : Crosses limit (1 + (aboveSteps e + 5) + (1 + (1 + (1 + 1)))) i
      (t.holding (frame [] 0 :: below :: rest))
      (t.holding ({ below with stack := .object o :: below.stack } :: rest))
      (s.machine.Writes t.id (made.modify o (·.setField 0 v))) s := by
    apply hopen.trans
    intro s1 h1
    have hs1 := hs.continue h1.toContinues
    have hmade : s1.machine.heap.get? o = some (.instanceOf (boxClass e)) := by
      rw [h1.heap, ho]
      exact Heap.get?_alloc_self _ _
    have hzero : (Object.instanceOf (boxClass e)).field 0 = .ok (.default (boxType e)) :=
      field_instanceOf_box he
    apply (crosses_boxConstructor he hs1 (Nat.le_succ_of_le hl) hv hmade rfl hzero).trans
    intro s2 h2
    apply (hreturn _ s2 (hs1.continue h2.toContinues) rfl).mono
    intro m h3
    rw [h1.heap] at h2
    exact (h1.trans h2).prepare h3
  exact hrun.of_eq (by omega)

theorem passes_boxGetter {x : Object} {below : Frame} (he : e ∈ boxes)
    (hl : limit ≤ rest.length + 1) (hv : v.fits (boxType e) = true) (ho : h.get? o = some x)
    (hx : x.klass = boxClass e) (hw : x.field 0 = .ok v) :
    Passes limit 3 i t h
      (.going (boxClass e) (boxGetter e) (Frame.localsOf [.object o] 1) [] 0 :: below :: rest)
      ({ below with stack := v :: below.stack } :: rest) := by
  let frame := Frame.going (boxClass e) (boxGetter e) (Frame.localsOf [.object o] 1)
  have hthis : Passes limit 1 i t h (frame [] 0 :: below :: rest)
      (frame [.object o] 1 :: below :: rest) := passes_local hl rfl rfl
  have hk : x.klass.isAssignable (boxClass e) = true := hx ▸ Class.isAssignable_self _
  have hread : Passes limit 1 i t h (frame [.object o] 1 :: below :: rest)
      (frame [v] 2 :: below :: rest) :=
    passes_getFirst hl (firstField_box e he) rfl ho hk hw
  have hreturn : Passes limit 1 i t h (frame [v] 2 :: below :: rest)
      ({ below with stack := v :: below.stack } :: rest) := passes_returnValue hl rfl rfl hv
  exact (hthis.trans hread).trans hreturn

end Exec

structure Machine.Opens (thread bound : Nat) (c : Class) (get : Method) (v : Value) (m : Machine)
    (o : ObjectId) (m' : Machine) : Prop where
  serves : m'.Serves thread
  fresh : m.heap.get? o = none
  others : m.heap.Extends m'.heap
  object : ∃ x, m'.heap.get? o = some x ∧ x.klass = c
  host : ∀ (i : Nat) (t : Thread) (s : Scene), s.machine = m' →
    (Exec.unbox o).Gives i t (fun w m'' => w = v ∧ m'' = m') s
  guest : ∀ (i : Nat) (t : Thread) (s : Scene), s.machine = m' → m'.Serves t.id →
    (Exec.invokeMethod (.bounded bound) c get [.object o]).Gives i t
      (fun r m'' => r = some v ∧ m'.Prepares t.id m'') s

theorem Machine.opens_box {m m' : Machine} {thread bound : Nat} (he : e ∈ boxes)
    (hv : v.fits (boxType e) = true) (hk : 7 ≤ bound) (hserves : m'.Serves thread)
    (hfresh : m.heap.get? o = none)
    (hothers : m.heap.Extends m'.heap)
    (ho : m'.heap.get? o = some ((Object.instanceOf (boxClass e)).setField 0 v)) :
    m.Opens thread bound (boxClass e) (boxGetter e) v o m' where
  serves := hserves
  fresh := hfresh
  others := hothers
  object := ⟨_, ho, rfl⟩
  host i t s hs := by
    subst hs
    exact Exec.gives_unbox (Machine.boxes_record he ho)
  guest i t s hm hs := by
    subst hm
    obtain ⟨hstatic, hnative, habstract⟩ := (boxGetter e).isOpen rfl
    have hvalue : ((Object.instanceOf (boxClass e)).setField 0 v).field 0 = .ok v := by
      simp [Object.field, boxClass, body_boxed he]
    have hwidth : Frame.argumentWidth [.object o] = (boxGetter e).argumentSlots := by
      simp [Method.argumentSlots, hstatic]
      rfl
    have hsteps : Exec.setupBound + 3 ≤ bound := hk
    apply Exec.gives_invokeBlock hnative habstract rfl hwidth hsteps
    intro s1 h1
    apply (Exec.passes_boxGetter he (Nat.le_refl _) hv (h1.heap ▸ ho) rfl hvalue s1
      (hs.continue h1.toContinues) rfl).mono
    intro m h2
    exact h1.trans h2

namespace Exec

theorem gives_boxMaker {bound : Nat} (he : e ∈ boxes) (hs : s.machine.Serves t.id)
    (hv : v.fits (boxType e) = true) (hk : 19 ≤ bound) :
    (invokeMethod (.bounded bound) (boxClass e) (boxMaker e) [v]).Gives i t (fun r m =>
      ∃ o, r = some (.object o) ∧
        s.machine.Opens t.id bound (boxClass e) (boxGetter e) v o m) s := by
  let o := (s.machine.heap.alloc (.instanceOf (boxClass e))).1
  have hsteps : setupBound + (aboveSteps e + 10) ≤ bound := by
    simp only [setupBound, aboveSteps]
    split <;> omega
  have hnative : (boxMaker e).isNative = false := (by decide : openStatic.isNative = false)
  have habstract : (boxMaker e).isAbstract = false := (by decide : openStatic.isAbstract = false)
  have hmade : (invokeMethod (.bounded bound) (boxClass e) (boxMaker e) [v]).Gives i t (fun r m =>
      r = some (.object o) ∧ s.machine.Writes t.id
        ((s.machine.heap.alloc (.instanceOf (boxClass e))).2.modify o (·.setField 0 v)) m) s := by
    apply gives_invokeBlock hnative habstract rfl (argumentWidth_boxMaker hv) hsteps
    intro s1 h1
    have hs1 := hs.continue h1.toContinues
    have ho : o = (s1.machine.heap.alloc (.instanceOf (boxClass e))).1 := by rw [h1.heap]
    apply (crosses_boxMaker he hs1 (Nat.le_refl _) hv ho).mono
    intro m h2
    rw [h1.heap] at h2
    exact h1.writes.trans h2
  apply hmade.mono
  rintro r m ⟨rfl, hm⟩
  have hfresh : s.machine.heap.get? o = none := Heap.get?_fresh _ _
  refine ⟨o, rfl, Machine.opens_box he hv (by omega) (hs.continue hm.toContinues) hfresh ?_ ?_⟩
  · rw [hm.heap]
    exact (Heap.extends_alloc _ _).modify hfresh _
  · rw [hm.heap]
    exact Heap.get?_modify_self _ (Heap.get?_alloc_self _ _)

theorem gives_opened {bound : Nat} (he : e ∈ boxes) (hs : s.machine.Serves t.id)
    (hv : v.fits (boxType e) = true) (hk : 7 ≤ bound) :
    (box (.bounded bound) e.1 v).Gives i t
      (s.machine.Opens t.id bound (boxClass e) (boxGetter e) v) s := by
  obtain ⟨n, rfl⟩ : ∃ n, bound = n + 4 := ⟨bound - 4, by omega⟩
  apply (gives_boxRecord he hs hv).mono
  rintro o m ⟨hadds, hfresh, ho⟩
  exact Machine.opens_box he hv hk (hs.continue hadds.toContinues) hfresh hadds.heap ho

end Exec

theorem Engine.boxing_agrees (bound : Nat) (libraries : List Library) (natives : NativeTable)
    (settings : Settings) (stdout stderr : Pipe) (journal : Journal) {c : Callers Inquiry Answer}
    {s : Scene} (hr : Callers.Run (Exec.ask (bounded bound)) Machine.Abides
      (.idle, .start libraries natives settings stdout stderr journal) (c, s)) :
    ∀ e ∈ boxes, ∃ (d : Class) (make get : Method),
      (ClassTable.load s.machine.libraries [] e.1 s.machine.classes).1 = .ok d ∧ d.name = e.1 ∧
      d.declaredMethod? ⟨"valueOf"⟩ ⟨[.base e.2.2.1], some (.object e.1)⟩ = some make ∧
      d.declaredMethod? ⟨e.2.2.2⟩ ⟨[], some (.base e.2.2.1)⟩ = some get ∧
      ∀ (t : Thread) (i k : Nat) (v : Value), s.machine.shouldTerminate t.id = false →
        s.machine.Free t.id → v.fits (.base e.2.2.1) = true →
        (Exec.invokeMethod (bounded (k + 19)) d make [v]).Gives i t (fun r m =>
          ∃ o, r = some (.object o) ∧ s.machine.Opens t.id (k + 19) d get v o m) s ∧
        (Exec.box (bounded (k + 19)) e.1 v).Gives i t
          (s.machine.Opens t.id (k + 19) d get v) s := by
  intro e he
  have h := Callers.Registered.of_start (woven_bounded bound) hr
  have hload : (ClassTable.load s.machine.libraries [] e.1 s.machine.classes).1 =
      .ok (boxClass e) := by
    have hclosed := h.orderly.closed
    obtain ⟨rest, hl⟩ := h.orderly.libraries
    rw [hl] at hclosed ⊢
    exact provides_record (get?_box e he) rest _ hclosed
  refine ⟨boxClass e, boxMaker e, boxGetter e, hload, rfl, declaredMethod?_maker e he,
    declaredMethod?_getter e he, ?_⟩
  intro t i k v halive hfree hv
  have hs : s.machine.Serves t.id := h.serves halive hfree
  constructor
  · exact Exec.gives_boxMaker he hs hv (by omega)
  · exact Exec.gives_opened he hs hv (by omega)

theorem Engine.boxing_agrees_of_long :
    let s : Scene := .start [] .standard .standard .sound .sound (.ofVerbosity none)
    let t : Thread := .start 1 "main"
    ∃ d make get, d.name = ClassName.long ∧
      (Exec.invokeMethod (bounded 19) d make [.long 5]).Gives 1 t (fun r m =>
        ∃ o, r = some (.object o) ∧ s.machine.Opens 1 19 d get (.long 5) o m) s ∧
      (Exec.box (bounded 19) .long (.long 5)).Gives 1 t
        (s.machine.Opens 1 19 d get (.long 5)) s := by
  intro s t
  have hfree : s.machine.Free 1 := fun l hl => by cases hl
  obtain ⟨d, make, get, -, hname, -, -, h⟩ := boxing_agrees 19 [] .standard .standard .sound .sound
    (.ofVerbosity none) (c := .idle) (s := s) .refl (.long, .number, .long, "longValue")
    (by decide +kernel)
  exact ⟨d, make, get, hname, h t 1 0 (.long 5) rfl hfree rfl⟩

end BytecodeMachine
