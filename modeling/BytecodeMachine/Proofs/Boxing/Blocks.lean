import BytecodeMachine.Proofs.Actions
import BytecodeMachine.Proofs.Bridge.Making

namespace BytecodeMachine

open CoreLibrary

variable {i limit a b : Nat} {t u w : Thread} {s : Scene} {h : Heap} {c : Class} {m : Method}
  {locals : Array Slot} {stack : List Value} {pc : Nat} {rest fs gs hs : Frames}

def Frame.going (c : Class) (m : Method) (locals : Array Slot) (stack : List Value) (pc : Nat) :
    Frame where
  activation := some ⟨c, m⟩
  locals := locals
  stack := stack
  pc := pc
  lastPc := pc - 1
  tossed := none
  steps := pc

def Frame.localsOf (arguments : List Value) (most : Nat) : Array Slot :=
  (pack arguments ++ List.replicate (most - (pack arguments).length) Slot.empty).toArray

theorem Frame.enter_going {arguments : List Value} {most : Nat}
    (hc : m.code.map (·.maxLocals) = some most)
    (hw : argumentWidth arguments = m.argumentSlots) :
    enter c m arguments = .ok (.going c m (localsOf arguments most) [] 0) := by
  obtain ⟨code, hcode, rfl⟩ := Option.map_eq_some_iff.1 hc
  simp [enter, hcode, hw]
  rfl

theorem Method.isSome_code {most : Nat} (hc : m.code.map (·.maxLocals) = some most) :
    m.code.isSome = true := by
  obtain ⟨code, hcode, -⟩ := Option.map_eq_some_iff.1 hc
  simp [hcode]

namespace Exec

def setupBound : Nat := 4

def Crosses (limit steps i : Nat) (t u : Thread) (P : Machine → Prop) (s : Scene) : Prop :=
  ∀ n v R, setupBound ≤ n →
    (∀ s', P s'.machine → ((Engine.bounded n).run limit).Turns i u v R s') →
    ((Engine.bounded (n + steps)).run limit).Turns i t v R s

theorem Crosses.trans {P P' : Machine → Prop} (h : Crosses limit a i t u P s)
    (h' : ∀ s', P s'.machine → Crosses limit b i u w P' s') :
    Crosses limit (b + a) i t w P' s := by
  intro n v R hn hnext
  rw [← Nat.add_assoc]
  apply h (n + b) v R (by omega)
  intro s' hs'
  exact h' s' hs' n v R hn hnext

theorem Crosses.of_eq {P : Machine → Prop} (h : Crosses limit a i t u P s) (hab : a = b) :
    Crosses limit b i t u P s :=
  hab ▸ h

theorem Crosses.mono {P P' : Machine → Prop} (h : Crosses limit a i t u P s)
    (hp : ∀ m, P m → P' m) : Crosses limit a i t u P' s :=
  fun n v R hn hnext => h n v R hn fun s' hs' => hnext s' (hp _ hs')

theorem crosses_step {P : Machine → Prop} {x : Instruction} (hs : s.machine.Serves t.id)
    (hl : limit ≤ rest.length)
    (hx : (m.code.bind fun code => code.instructions[pc]?) = some x)
    (hstep : ∀ n s', setupBound ≤ n → s'.machine.Serves t.id →
      s.machine.Prepares t.id s'.machine →
      (execute (.bounded n) x).Turns i (t.holding (.going c m locals stack (pc + 1) :: rest)) u
        (fun _ m => P m) s') :
    Crosses limit 1 i (t.holding (.going c m locals stack pc :: rest)) u P s := by
  intro n v R hn hnext
  apply turns_run (t := t.holding (.going c m locals stack pc :: rest)) hs rfl hl rfl rfl hx
  · intro s' h'
    exact hstep n s' hn (hs.continue h'.toContinues) h'
  · exact hnext

-- A run is over when the frames are down to its limit.
theorem Crosses.turns {P : Machine → Prop} {steps k : Nat} (h : Crosses limit steps i t u P s)
    (hu : u.isWithin limit = true) (hk : setupBound + steps ≤ k) :
    ((Engine.bounded k).run limit).Turns i t u (fun _ m => P m) s := by
  obtain ⟨n, rfl⟩ : ∃ n, k = n + setupBound + steps := ⟨k - setupBound - steps, by omega⟩
  apply h (n + setupBound) u _ (by omega)
  intro s' hs'
  apply (turns_run_within hu).mono
  rintro _ _ rfl
  exact hs'

def Passes (limit steps i : Nat) (t : Thread) (h : Heap) (fs gs : Frames) : Prop :=
  ∀ s, s.machine.Serves t.id → s.machine.heap = h →
    Crosses limit steps i (t.holding fs) (t.holding gs) (s.machine.Prepares t.id) s

theorem Passes.trans (hf : Passes limit a i t h fs gs) (hg : Passes limit b i t h gs hs) :
    Passes limit (b + a) i t h fs hs := by
  intro s hserves hheap
  apply (hf s hserves hheap).trans
  intro s1 h1
  apply (hg s1 (hserves.continue h1.toContinues) (h1.heap.trans hheap)).mono
  intro m hm
  exact h1.trans hm

theorem passes_step {x : Instruction} (hl : limit ≤ rest.length)
    (hx : (m.code.bind fun code => code.instructions[pc]?) = some x)
    (hstep : ∀ n s, s.machine.Serves t.id → s.machine.heap = h →
      (execute (.bounded n) x).Turns i (t.holding (.going c m locals stack (pc + 1) :: rest))
        (t.holding gs) (fun _ m => s.machine.Prepares t.id m) s) :
    Passes limit 1 i t h (.going c m locals stack pc :: rest) gs := by
  intro s hserves hheap
  apply crosses_step hserves hl hx
  intro n s1 _ hs1 h1
  apply (hstep n s1 hs1 (h1.heap.trans hheap)).mono
  intro _ m hm
  exact h1.trans hm

theorem run_loadLocal {f : Frame} {v : Value} {slot : Nat} (hv : f.load slot = .ok v) :
    (FrameM.loadLocal v.kind slot).run.run f = (.ok (), { f with stack := v :: f.stack }) := by
  have hload : (FrameM.load slot).run.run f = (.ok v, f) := by
    change (FrameM.ofExcept (f.load slot)).run.run f = _
    rw [hv]
    rfl
  simp only [FrameM.loadLocal, FrameM.run_bind, hload, FrameM.expectKind, if_pos]
  rfl

theorem passes_local {v : Value} {slot : Nat} (hl : limit ≤ rest.length)
    (hx : (m.code.bind fun code => code.instructions[pc]?) = some (.load v.kind slot))
    (hv : locals[slot]? = some (.value v)) :
    Passes limit 1 i t h (.going c m locals stack pc :: rest)
      (.going c m locals (v :: stack) (pc + 1) :: rest) := by
  apply passes_step hl hx
  intro n s _ _
  have hload : (Frame.going c m locals stack (pc + 1)).load slot = .ok v := by
    simp [Frame.load, Frame.going, hv]
  apply (turns_inFrame rfl (run_loadLocal hload)).mono
  rintro _ _ ⟨-, rfl⟩
  exact .refl _

theorem passes_dup {v : Value} (hl : limit ≤ rest.length)
    (hx : (m.code.bind fun code => code.instructions[pc]?) = some (.shuffle .dup))
    (hv : v.width = 1) :
    Passes limit 1 i t h (.going c m locals (v :: stack) pc :: rest)
      (.going c m locals (v :: v :: stack) (pc + 1) :: rest) := by
  apply passes_step hl hx
  intro n s _ _
  have hrun : (FrameM.shuffle .dup).run.run (.going c m locals (v :: stack) (pc + 1)) =
      (.ok (), .going c m locals (v :: v :: stack) (pc + 1)) := by
    cases v <;> first | rfl | cases hv
  apply (turns_inFrame rfl hrun).mono
  rintro _ _ ⟨-, rfl⟩
  exact .refl _

theorem passes_returnVoid (hl : limit ≤ rest.length)
    (hx : (m.code.bind fun code => code.instructions[pc]?) = some .returnVoid)
    (hr : m.type.result = none) :
    Passes limit 1 i t h (.going c m locals stack pc :: rest) rest := by
  apply passes_step hl hx
  intro n s _ _
  apply (turns_returnVoid (t := t.holding _) rfl rfl hr).mono
  rintro _ _ rfl
  exact .refl _

theorem turns_push {f : Frame} (v : Value) (hf : t.frames = f :: rest) :
    (push v).Turns i t (t.holding ({ f with stack := v :: f.stack } :: rest))
      (fun _ m => m = s.machine) s := by
  have hrun : (FrameM.push v).run.run f = (.ok (), { f with stack := v :: f.stack }) := rfl
  apply (turns_inFrame hf hrun).mono
  rintro _ _ ⟨-, h⟩
  exact h

theorem turns_returnValue {e : Engine} {f below : Frame} {v : Value} {act : Activation} {k : Kind}
    {T : FieldType} (hf : t.frames = f :: below :: rest) (ha : f.activation = some act)
    (hs : f.stack.head? = some v) (hr : act.method.type.result = some T) (hv : v.fits T = true) :
    (execute e (.returnValue k)).Turns i t
      (t.holding ({ below with stack := v :: below.stack } :: rest))
      (fun _ m => m = s.machine) s := by
  apply gives_get.bind
  rintro _ s1 ⟨rfl, h1⟩
  have hstack : f.stack.isEmpty = false := by
    cases hstack : f.stack with
    | nil => simp [hstack] at hs
    | cons => rfl
  simp only [hf]
  apply turns_modify.bind
  intro _ s2 h2
  simp only [hstack, Bool.and_false, Bool.false_eq_true, if_false, ha, hs, if_true, wellTyped, hr,
    hv, Bool.not_true]
  apply (turns_push v rfl).mono
  intro _ m h
  exact h.trans (h2.trans h1)

theorem passes_returnValue {below : Frame} {v : Value} {k : Kind} {T : FieldType}
    (hl : limit ≤ rest.length + 1)
    (hx : (m.code.bind fun code => code.instructions[pc]?) = some (.returnValue k))
    (hr : m.type.result = some T) (hv : v.fits T = true) :
    Passes limit 1 i t h (.going c m locals (v :: stack) pc :: below :: rest)
      ({ below with stack := v :: below.stack } :: rest) := by
  apply passes_step hl hx
  intro n s _ _
  apply (turns_returnValue (t := t.holding _) rfl rfl rfl hr hv).mono
  rintro _ _ rfl
  exact .refl _

section Fields

variable {g : Field} {o : ObjectId} {x : Object} {v : Value}

theorem turns_getFirst {e : Engine} {f : Frame} (hg : FirstField c g) (hs : s.machine.Serves t.id)
    (hf : t.frames = f :: rest) (ha : f.activation = some ⟨c, m⟩)
    (hstack : f.stack = .object o :: stack) (ho : s.machine.heap.get? o = some x)
    (hk : x.klass.isAssignable c = true) (hv : x.field 0 = .ok v) :
    (execute e (.getField ⟨c.name, g.name, g.type⟩)).Turns i t
      (t.holding ({ f with stack := v :: stack } :: rest))
      (fun _ m => s.machine.Prepares t.id m) s := by
  have hctx : t.activation? = some ⟨c, m⟩ := by simp [Thread.activation?, hf, ha]
  apply (gives_resolveField hs hg.provided hg.field rfl hg.owner (sees_firstField hg hctx)).bind
  rintro _ s1 ⟨rfl, h1⟩
  simp only [hg.bound, Bool.false_eq_true, if_false]
  have hpop : (FrameM.popObject "getfield").run.run f = (.ok o, { f with stack := stack }) := by
    obtain ⟨_, _, _, _, _, _, _⟩ := f
    cases hstack
    rfl
  apply (turns_inFrame hf hpop).bind
  rintro p s2 ⟨rfl, h2⟩
  have ho2 : s2.machine.heap.get? p = some x := by rw [h2, h1.heap, ho]
  apply (gives_classOf ho2).bind
  rintro _ s3 ⟨rfl, h3⟩
  simp only [hk, Bool.not_true, Bool.false_eq_true, if_false, hg.slot, Option.getD_some]
  apply (gives_field (h3 ▸ ho2) hv).bind
  rintro v s4 ⟨rfl, h4⟩
  apply (turns_push (f := { f with stack := stack }) v rfl).mono
  rintro _ _ rfl
  rw [h4, h3, h2]
  exact h1

theorem passes_getFirst (hl : limit ≤ rest.length) (hg : FirstField c g)
    (hx : (m.code.bind fun code => code.instructions[pc]?) = some (.getField ⟨c.name, g.name, g.type⟩))
    (ho : h.get? o = some x) (hk : x.klass.isAssignable c = true) (hv : x.field 0 = .ok v) :
    Passes limit 1 i t h (.going c m locals (.object o :: stack) pc :: rest)
      (.going c m locals (v :: stack) (pc + 1) :: rest) := by
  apply passes_step hl hx
  rintro n s hs rfl
  let u := t.holding (.going c m locals (.object o :: stack) (pc + 1) :: rest)
  exact turns_getFirst (t := u) hg hs rfl rfl rfl ho hk hv

theorem crosses_putFirst {w : Value} (hs : s.machine.Serves t.id) (hl : limit ≤ rest.length)
    (hg : FirstField c g)
    (hx : (m.code.bind fun code => code.instructions[pc]?) = some (.putField ⟨c.name, g.name, g.type⟩))
    (hm : m.name = .constructor) (ho : s.machine.heap.get? o = some x)
    (hk : x.klass.isAssignable c = true) (hw : x.field 0 = .ok w) (hv : v.fits g.type = true) :
    Crosses limit 1 i (t.holding (.going c m locals (v :: .object o :: stack) pc :: rest))
      (t.holding (.going c m locals stack (pc + 1) :: rest))
      (s.machine.Writes t.id (s.machine.heap.modify o (·.setField 0 v))) s := by
  apply crosses_step hs hl hx
  intro n s1 _ hs1 h1
  have hput := turns_putFirst (i := i) (e := .bounded n)
    (t := t.holding (.going c m locals (v :: .object o :: stack) (pc + 1) :: rest)) hg hs1 rfl rfl hm
    rfl (h1.heap ▸ ho) hk hw hv
  apply hput.mono
  intro _ m' hm'
  rw [h1.heap] at hm'
  exact h1.writes.trans hm'

end Fields

theorem gives_resolveClass (hs : s.machine.Serves t.id) {n : ClassName} (hc : Provides n c)
    (hsees : ∀ k, t.context? = some k → k.seesClass c.innermost = true) :
    (resolveClass n).Gives i t (fun a m => a = c ∧ s.machine.Prepares t.id m) s := by
  apply gives_get.bind
  rintro _ s1 ⟨rfl, h1⟩
  rw [← h1] at hs ⊢
  apply ends_resolve
    (congrArg Prod.fst (Resolving.resolveClass_of_load (Prod.ext (hs.load hc) rfl) hsees))
  exact ⟨rfl, _, rfl, rfl, Machine.prepares_resolve (Resolving.finds_resolveClass n _) _⟩

theorem gives_allocateInstance {e : Engine} (hs : s.machine.Serves t.id)
    (hinst : c.isInstantiable = true) (hup : SetsUp e c) :
    (allocateInstance e c).Gives i t (fun o m =>
      o = (s.machine.heap.alloc (.instanceOf c)).1 ∧
        s.machine.Writes t.id (s.machine.heap.alloc (.instanceOf c)).2 m) s := by
  simp only [allocateInstance, hinst, Bool.not_true, Bool.false_eq_true, if_false]
  apply (hup i t s hs).bind
  intro _ s1 h1
  apply gives_act.mono
  intro o m hm
  obtain ⟨rfl, rfl⟩ := Prod.ext_iff.1 hm
  rw [← h1.heap]
  exact ⟨rfl, h1.writes.trans (Machine.writes_alloc _ _ _)⟩

theorem crosses_new {n : ClassName} (hs : s.machine.Serves t.id) (hl : limit ≤ rest.length)
    (hc : Provides n c) (hin : c.innermost = c) (hinst : c.isInstantiable = true)
    (hx : (m.code.bind fun code => code.instructions[pc]?) = some (.new n))
    (hup : ∀ k, setupBound ≤ k → SetsUp (.bounded k) c) :
    Crosses limit 1 i (t.holding (.going c m locals stack pc :: rest))
      (t.holding (.going c m locals (.object (s.machine.heap.alloc (.instanceOf c)).1 :: stack)
        (pc + 1) :: rest))
      (s.machine.Writes t.id (s.machine.heap.alloc (.instanceOf c)).2) s := by
  apply crosses_step hs hl hx
  intro k s1 hk hs1 h1
  let u := t.holding (.going c m locals stack (pc + 1) :: rest)
  have hsees : ∀ k, u.context? = some k → k.seesClass c.innermost = true := by
    rintro _ ⟨⟩
    rw [hin]
    exact c.seesClass_self
  apply (gives_resolveClass (t := u) hs1 hc hsees).bind
  rintro c s2 ⟨rfl, h2⟩
  apply (gives_allocateInstance (t := u) (hs1.continue h2.toContinues) hinst (hup k hk)).bind
  rintro o s3 ⟨rfl, h3⟩
  have hheap : s2.machine.heap = s.machine.heap := h2.heap.trans h1.heap
  rw [hheap] at h3 ⊢
  apply (turns_push (t := u) (f := .going c m locals stack (pc + 1)) _ rfl).mono
  rintro _ _ rfl
  exact (h1.trans h2).writes.trans h3

theorem passes_construct {d : Class} {f : Method} {ref : MethodRef} {o : ObjectId}
    {below : List Value} {most : Nat} (arguments : List Value) (hl : limit ≤ rest.length)
    (hx : (m.code.bind fun code => code.instructions[pc]?) = some (.invoke .special ref))
    (hd : Provides ref.klass d) (hvisible : d.innermost.isPublic = true)
    (hf : d.lookupMethod? ref.name ref.type = some f) (howner : f.owner = ref.klass)
    (hname : f.name = .constructor) (haccess : f.access = openMethod)
    (hcode : f.code.map (·.maxLocals) = some most)
    (hcount : arguments.length = f.type.parameters.length)
    (hw : Frame.argumentWidth (.object o :: arguments) = f.argumentSlots) :
    Passes limit 1 i t h
      (.going c m locals (arguments.reverse ++ .object o :: below) pc :: rest)
      (.going d f (Frame.localsOf (.object o :: arguments) most) [] 0 ::
        .going c m locals below (pc + 1) :: rest) := by
  apply passes_step hl hx
  intro n s hs _
  let u := t.holding
    (.going c m locals (arguments.reverse ++ .object o :: below) (pc + 1) :: rest)
  have hpop : (FrameM.popMany (f.type.parameters.length + 1)).run.run
      (.going c m locals (arguments.reverse ++ .object o :: below) (pc + 1)) =
        (.ok (.object o :: arguments), .going c m locals below (pc + 1)) := by
    apply FrameM.run_popMany
    · simp [Frame.going]
    · simp [hcount]
  exact turns_invokeConstructor (t := u) hs rfl hd hvisible hf howner hname haccess
    (Method.isSome_code hcode) hpop (Frame.enter_going hcode hw)

theorem gives_invokeBlock {P : Machine → Prop} {arguments : List Value} {v : Value}
    {most steps k : Nat} (hn : m.isNative = false) (ha : m.isAbstract = false)
    (hc : m.code.map (·.maxLocals) = some most)
    (hw : Frame.argumentWidth arguments = m.argumentSlots) (hk : setupBound + steps ≤ k)
    (hrun : ∀ s', s.machine.Prepares t.id s'.machine → Crosses (t.depth + 1) steps i
      (t.holding (.going c m (Frame.localsOf arguments most) [] 0 :: .blank :: t.frames))
      (t.holding ({ Frame.blank with stack := [v] } :: t.frames)) P s') :
    (invokeMethod (.bounded k) c m arguments).Gives i t (fun r m => r = some v ∧ P m) s := by
  apply gives_invokeMethod
  intro s1 h1
  apply (turns_enterMethod (t := t.holding (.blank :: t.frames)) hn ha
    (Method.isSome_code hc) (Frame.enter_going hc hw)).bind_ends
  intro _ s2 h2
  have hwithin : (t.holding ({ Frame.blank with stack := [v] } :: t.frames)).isWithin
      (t.depth + 1) = true := by
    simp [Thread.isWithin_iff, Thread.depth]
  apply Ends.mono ((hrun s2 (h1.trans h2)).turns hwithin hk)
  rintro r t' s3 ⟨rfl, _, rfl, hp⟩
  exact ⟨rfl, _, rfl, rfl, rfl, hp⟩

end Exec

end BytecodeMachine
