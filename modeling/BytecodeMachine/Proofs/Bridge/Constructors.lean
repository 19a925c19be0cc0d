import BytecodeMachine.Proofs.Bridge.Steps

namespace BytecodeMachine

open CoreLibrary

variable {i n limit : Nat} {t u v : Thread} {s : Scene} {f : Frame} {rest : Frames}

theorem Method.isOpen (m : Method) (h : m.access = openMethod) :
    m.isStatic = false ∧ m.isNative = false ∧ m.isAbstract = false := by
  rw [Method.isStatic, Method.isNative, Method.isAbstract, h]
  exact ⟨rfl, rfl, rfl⟩

namespace Exec

section Resolution

variable {c : Class}

theorem gives_resolveMethod (hs : s.machine.Serves t.id) {ref : MethodRef} {m : Method}
    (hc : Provides ref.klass c) (hm : c.lookupMethod? ref.name ref.type = some m)
    (ho : m.owner = ref.klass)
    (hsees : ∀ k, t.context? = some k → k.seesClass c.innermost = true ∧
      k.seesMember c m.access.visibility = true) :
    (resolveMethod ref).Gives i t (fun a m' => a = (c, m) ∧ s.machine.Prepares t.id m') s := by
  refine gives_get.bind fun _ s1 h1 => ?_
  obtain ⟨rfl, hm1⟩ := h1
  rw [← hm1] at hs ⊢
  have hr := Resolving.resolveMethod_of_load (Prod.ext (hs.load hc) rfl) hm ho hsees
  exact ends_resolve (congrArg Prod.fst hr)
    ⟨rfl, _, rfl, rfl, Machine.prepares_resolve (Resolving.keeps_resolveMethod ref _) _⟩

theorem gives_resolveField (hs : s.machine.Serves t.id) {ref : FieldRef} {g : Field}
    (hc : Provides ref.klass c) (hg : c.lookupField? ref.name = some g)
    (ht : g.type = ref.type) (ho : g.owner = ref.klass)
    (hsees : ∀ k, t.context? = some k → k.seesClass c.innermost = true ∧
      k.seesMember c g.access.visibility = true) :
    (resolveField ref).Gives i t (fun a m => a = (c, g) ∧ s.machine.Prepares t.id m) s := by
  refine gives_get.bind fun _ s1 h1 => ?_
  obtain ⟨rfl, hm1⟩ := h1
  rw [← hm1] at hs ⊢
  have hr := Resolving.resolveField_of_load (Prod.ext (hs.load hc) rfl) hg ht ho hsees
  exact ends_resolve (congrArg Prod.fst hr)
    ⟨rfl, _, rfl, rfl, Machine.prepares_resolve (Resolving.finds_resolveField ref _) _⟩

end Resolution

section Calls

theorem turns_enterFrame {c : Class} {m : Method} {arguments : List Value}
    (hf : Frame.enter c m arguments = .ok f) :
    (enterFrame c m arguments).Turns i t (t.holding (f :: t.frames))
      (fun _ m => s.machine.Prepares t.id m) s := by
  have next {s1 : Scene} (h1 : s.machine.Prepares t.id s1.machine) :
      Turns (do
        let f ← ofExcept (Frame.enter c m arguments)
        modify (·.push f)) i t (t.holding (f :: t.frames))
        (fun _ m => s.machine.Prepares t.id m) s1 := by
    rw [hf]
    exact (gives_pure (P := fun a m => a = f ∧ m = s1.machine) ⟨rfl, rfl⟩).bind fun a s2 h2 => by
      rw [h2.1]
      exact turns_modify.mono fun _ m h => by rw [h, h2.2]; exact h1
  refine gives_read.bind fun noted s1 h1 => ?_
  split
  · refine gives_get.bind fun _ s2 h2 => (gives_note _).bind fun _ s3 h3 => next ?_
    rw [h3, h2.2, h1.2]
    exact Machine.prepares_note _ _
  · exact next (h1.2 ▸ .refl _)

theorem turns_enterMethod {e : Engine} {c : Class} {m : Method} {arguments : List Value}
    (hn : m.isNative = false) (ha : m.isAbstract = false) (hc : m.code.isSome = true)
    (hf : Frame.enter c m arguments = .ok f) :
    (enterMethod e c m arguments).Turns i t (t.holding (f :: t.frames))
      (fun _ m => s.machine.Prepares t.id m) s := by
  have hnone : m.code.isNone = false := by simpa using hc
  simp only [enterMethod, hn, ha, hnone, Bool.or_self, Bool.false_eq_true, if_false]
  exact turns_enterFrame hf

theorem turns_returnVoid {e : Engine} {a : Activation} (hf : t.frames = f :: rest)
    (ha : f.activation = some a) (hr : a.method.type.result = none) :
    (execute e .returnVoid).Turns i t (t.holding rest) (fun _ m => m = s.machine) s := by
  refine gives_get.bind fun _ s1 h1 => ?_
  rw [h1.1]
  simp only [hf]
  refine turns_modify.bind fun _ s2 h2 => ?_
  simp only [Bool.false_and, Bool.false_eq_true, if_false, ha, hr, wellTyped, Bool.not_true]
  exact gives_pure (h2.trans h1.2)

theorem turns_invokeConstructor {e : Engine} {d : Class} {m : Method} {ref : MethodRef} {g h : Frame}
    {o : ObjectId} {arguments : List Value} (hs : s.machine.Serves t.id) (hf : t.frames = f :: rest)
    (hd : Provides ref.klass d) (hvisible : d.innermost.isPublic = true)
    (hm : d.lookupMethod? ref.name ref.type = some m) (howner : m.owner = ref.klass)
    (hname : m.name = .constructor) (haccess : m.access = openMethod) (hcode : m.code.isSome = true)
    (hpop : (FrameM.popMany (m.type.parameters.length + 1)).run.run f =
      (.ok (.object o :: arguments), g))
    (henter : Frame.enter d m (.object o :: arguments) = .ok h) :
    (execute e (.invoke .special ref)).Turns i t (t.holding (h :: g :: rest))
      (fun _ m => s.machine.Prepares t.id m) s := by
  have hsees : ∀ k, t.context? = some k → k.seesClass d.innermost = true ∧
      k.seesMember d m.access.visibility = true := by
    intro k _
    rw [haccess]
    exact ⟨by simp [Class.seesClass, hvisible], rfl⟩
  obtain ⟨hstatic, hnative, habstract⟩ := m.isOpen haccess
  refine (gives_resolveMethod hs hd hm howner hsees).bind fun a s1 h1 => ?_
  obtain ⟨rfl, h1⟩ := h1
  change (invokeSpecial e ref d m).Turns i t _ _ s1
  simp only [invokeSpecial, hstatic, Bool.false_eq_true, if_false]
  have htarget : (specialTarget ref d m).Gives i t (fun a m' => a = (d, m) ∧ m' = s1.machine) s1 := by
    refine gives_get.bind fun _ s2 h2 => ?_
    rw [h2.1]
    split
    · exact gives_pure ⟨rfl, h2.2⟩
    · simp only [hname, decide_true, Bool.or_true, if_true]
      exact gives_pure ⟨rfl, h2.2⟩
  refine htarget.bind fun a s2 h2 => ?_
  obtain ⟨rfl, h2⟩ := h2
  refine (turns_inFrame hf hpop).bind fun a s3 h3 => ?_
  obtain ⟨rfl, h3⟩ := h3
  refine (gives_pure (P := fun a m => a = o ∧ m = s3.machine) ⟨rfl, rfl⟩).bind fun a s4 h4 => ?_
  simp only [habstract, Bool.false_eq_true, if_false]
  refine (turns_enterMethod (t := t.holding (g :: rest)) hnative habstract hcode henter).mono
    fun _ m h => ?_
  rw [h4.2, h3, h2] at h
  exact h1.trans h

end Calls

end Exec

theorem Class.seesClass_self (c : Class) : c.seesClass c = true := by simp [seesClass]

theorem Class.seesMember_self (c : Class) (v : Visibility) : c.seesMember c v = true := by
  cases v <;> simp [seesMember]

namespace CoreLibrary

def objectConstructor : Method :=
  ⟨.object, .constructor, .void [], openMethod, some (.plain 1 [.returnVoid])⟩

def keepingConstructor (n : ClassName) (g : Field) : Method :=
  ⟨n, .constructor, .void [g.type], openMethod, some (.plain 3
    [loadThis, construct .object [], loadThis, .load .reference 1, .putField ⟨n, g.name, g.type⟩,
      .returnVoid])⟩

theorem lookupMethod?_objectConstructor :
    objectRecord.lookupMethod? .constructor (.void []) = some objectConstructor := rfl

structure FirstField (c : Class) (g : Field) : Prop where
  provided : Provides c.name c
  innermost : c.innermost = c
  field : c.lookupField? g.name = some g
  owner : g.owner = c.name
  slot : g.slot = some 0
  bound : g.isStatic = false

structure Keeps (c : Class) (g : Field) : Prop where
  provided : Provides c.name c
  innermost : c.innermost = c
  field : c.lookupField? g.name = some g
  owner : g.owner = c.name
  slot : g.slot = some 0
  bound : g.isStatic = false
  reference : g.type.kind = .reference

theorem Keeps.firstField {c : Class} {g : Field} (h : Keeps c g) : FirstField c g :=
  ⟨h.provided, h.innermost, h.field, h.owner, h.slot, h.bound⟩

end CoreLibrary

def constructorFrame (c : Class) (m : Method) (o p : ObjectId) (spare : List Slot)
    (stack : List Value) (pc : Nat) : Frame where
  activation := some ⟨c, m⟩
  locals := (.value (.object o) :: .value (.object p) :: spare).toArray
  stack := stack
  pc := pc
  lastPc := pc - 1
  tossed := none
  steps := pc

def keepingFrame (c : Class) (g : Field) (o p : ObjectId) : List Value → Nat → Frame :=
  constructorFrame c (keepingConstructor c.name g) o p [.empty]

def objectFrame (o : ObjectId) (pc : Nat) : Frame where
  activation := some ⟨objectRecord, objectConstructor⟩
  locals := #[.value (.object o)]
  stack := []
  pc := pc
  lastPc := pc - 1
  tossed := none
  steps := pc

theorem enter_constructor {T : FieldType} (c : Class) {m : Method} {code : Code}
    (hc : m.code = some code) (ha : m.access = openMethod) (ht : m.type = .void [T])
    (hT : T.kind = .reference) (o p : ObjectId) :
    Frame.enter c m [.object o, .object p] = .ok (constructorFrame c m o p
      (List.replicate (code.maxLocals - 2) .empty) [] 0) := by
  have hwidth : T.width = 1 := by rw [FieldType.width_eq_width_kind, hT]; rfl
  have hslots : m.argumentSlots = 2 := by
    rw [Method.argumentSlots, Method.isStatic, ha, ht]
    simp [MethodType.slots, MethodType.void, MethodType.totalWidth, hwidth]
    rfl
  simp only [Frame.enter, hc, hslots]
  rfl

theorem enter_keepingConstructor (c : Class) {g : Field} (hg : g.type.kind = .reference)
    (o p : ObjectId) : Frame.enter c (keepingConstructor c.name g) [.object o, .object p] =
      .ok (keepingFrame c g o p [] 0) :=
  enter_constructor c (m := keepingConstructor c.name g) rfl rfl rfl hg o p

theorem enter_objectConstructor (o : ObjectId) :
    Frame.enter objectRecord objectConstructor [.object o] = .ok (objectFrame o 0) := rfl

namespace Exec

variable {o p : ObjectId} {c : Class} {g : Field} {m : Method} {spare : List Slot}
  {stack : List Value} {pc : Nat}

theorem turns_loadLocal {e : Engine} {slot : Nat} {g : Frame} (hf : t.frames = f :: rest)
    (hw : (FrameM.loadLocal .reference slot).run.run f = (.ok (), g)) :
    (execute e (.load .reference slot)).Turns i t (t.holding (g :: rest))
      (fun _ m => s.machine.Prepares t.id m) s :=
  (turns_inFrame hf hw).mono fun _ _ h => h.2 ▸ .refl _

theorem turns_loadThis {e : Engine} (hf : t.frames = constructorFrame c m o p spare stack pc :: rest) :
    (execute e loadThis).Turns i t
      (t.holding (constructorFrame c m o p spare (.object o :: stack) pc :: rest))
      (fun _ m => s.machine.Prepares t.id m) s :=
  turns_loadLocal hf rfl

theorem turns_loadArgument {e : Engine}
    (hf : t.frames = constructorFrame c m o p spare stack pc :: rest) :
    (execute e (.load .reference 1)).Turns i t
      (t.holding (constructorFrame c m o p spare (.object p :: stack) pc :: rest))
      (fun _ m => s.machine.Prepares t.id m) s :=
  turns_loadLocal hf rfl

theorem turns_invokeObject {e : Engine} (hs : s.machine.Serves t.id)
    (hf : t.frames = constructorFrame c m o p spare [.object o] pc :: rest) :
    (execute e (construct .object [])).Turns i t
      (t.holding (objectFrame o 0 :: constructorFrame c m o p spare [] pc :: rest))
      (fun _ m => s.machine.Prepares t.id m) s :=
  turns_invokeConstructor hs hf (provides_record rfl) rfl lookupMethod?_objectConstructor rfl rfl rfl
    rfl rfl (enter_objectConstructor o)

theorem sees_firstField (hg : FirstField c g) (ha : t.activation? = some ⟨c, m⟩) :
    ∀ k, t.context? = some k → k.seesClass c.innermost = true ∧
      k.seesMember c g.access.visibility = true := by
  intro k hc
  rw [Thread.context?, ha] at hc
  cases hc
  rw [hg.innermost]
  exact ⟨c.seesClass_self, c.seesMember_self _⟩

theorem turns_putFirst {e : Engine} {x : Object} {w v : Value} (hg : FirstField c g)
    (hs : s.machine.Serves t.id) (hf : t.frames = f :: rest) (ha : f.activation = some ⟨c, m⟩)
    (hm : m.name = .constructor) (hstack : f.stack = v :: .object o :: stack)
    (ho : s.machine.heap.get? o = some x) (hx : x.klass.isAssignable c = true)
    (hw : x.field 0 = .ok w) (hv : v.fits g.type = true) :
    (execute e (.putField ⟨c.name, g.name, g.type⟩)).Turns i t
      (t.holding ({ f with stack := stack } :: rest))
      (fun _ m => s.machine.Writes t.id (s.machine.heap.modify o (·.setField 0 v)) m) s := by
  have hctx : t.activation? = some ⟨c, m⟩ := by simp [Thread.activation?, hf, ha]
  refine (gives_resolveField hs hg.provided hg.field rfl hg.owner (sees_firstField hg hctx)).bind
    fun a s1 h1 => ?_
  obtain ⟨rfl, h1⟩ := h1
  simp only [hg.bound, Bool.false_eq_true, if_false]
  have hcheck : (checkFinalWrite g .constructor).Gives i t (fun _ m => m = s1.machine) s1 := by
    refine gives_get.bind fun _ s2 h2 => ?_
    simp only [h2.1, hctx, Option.any_some, hm, hg.owner, decide_true, Bool.and_self,
      Bool.not_true, Bool.and_false, Bool.false_eq_true, if_false]
    exact gives_pure h2.2
  refine hcheck.bind fun _ s2 h2 => ?_
  have hvalue : FrameM.pop.run.run f = (.ok v, { f with stack := .object o :: stack }) := by
    obtain ⟨_, _, _, _, _, _, _⟩ := f
    cases hstack
    rfl
  refine (turns_inFrame hf hvalue).bind fun u s3 h3 => ?_
  obtain ⟨hu, h3⟩ := h3
  refine (turns_inFrame (f := { f with stack := .object o :: stack }) (b := o)
    (g := { f with stack := stack }) rfl rfl).bind fun a s4 h4 => ?_
  obtain ⟨rfl, h4⟩ := h4
  have hm : s.machine.Prepares t.id s4.machine := by
    rw [h4, h3, h2]
    exact h1
  have ho4 : s4.machine.heap.get? a = some x := by rw [hm.heap, ho]
  refine (gives_classOf ho4).bind fun k s5 h5 => ?_
  rw [h5.1, hx]
  have hfits : checkStored g u = pure () := if_pos (hu ▸ hv)
  simp only [Bool.not_true, Bool.false_eq_true, if_false, hfits, hg.slot, Option.getD_some, pure_bind]
  rw [hu]
  refine (gives_setField v (h5.2 ▸ ho4) hw).mono fun _ m h => ?_
  rw [h5.2, hm.heap] at h
  exact hm.writes.trans h

theorem turns_putKept {e : Engine} {x : Object} {w : Value} (hk : Keeps c g)
    (hs : s.machine.Serves t.id)
    (hf : t.frames = keepingFrame c g o p [.object p, .object o] pc :: rest)
    (ho : s.machine.heap.get? o = some x) (hx : x.klass.isAssignable c = true)
    (hw : x.field 0 = .ok w) :
    (execute e (.putField ⟨c.name, g.name, g.type⟩)).Turns i t
      (t.holding (keepingFrame c g o p [] pc :: rest))
      (fun _ m => s.machine.Writes t.id
        (s.machine.heap.modify o (·.setField 0 (.object p))) m) s :=
  turns_putFirst hk.firstField hs hf rfl rfl rfl ho hx hw (decide_eq_true hk.reference.symm)

section Running

variable {R : Unit → Machine → Prop} {x : Instruction}

theorem turns_runPrepared {a : Activation} (hs : s.machine.Serves t.id) (hf : t.frames = f :: rest)
    (hl : limit ≤ rest.length) (htoss : f.tossed = none) (ha : f.activation = some a)
    (hx : f.instruction? f.pc = some x)
    (hstep : ∀ s', s'.machine.Serves t.id →
      (execute (.bounded n) x).Turns i (t.holding (f.stepped :: rest)) u
        (fun _ m => s'.machine.Prepares t.id m) s')
    (hnext : ∀ s', s.machine.Prepares t.id s'.machine →
      ((Engine.bounded n).run limit).Turns i u v R s') :
    ((Engine.bounded (n + 1)).run limit).Turns i t v R s := by
  refine turns_run (P := fun _ m => s.machine.Prepares t.id m) hs hf hl htoss ha hx
    (fun s1 h1 => ?_) hnext
  exact (hstep s1 (hs.continue h1.toContinues)).mono fun _ m h => h1.trans h

theorem turns_runReturn {a : Activation} (hs : s.machine.Serves t.id) (hf : t.frames = f :: rest)
    (hl : limit ≤ rest.length) (htoss : f.tossed = none) (ha : f.activation = some a)
    (hx : f.instruction? f.pc = some .returnVoid) (hr : a.method.type.result = none)
    (hnext : ∀ s', s.machine.Prepares t.id s'.machine →
      ((Engine.bounded n).run limit).Turns i (t.holding rest) v R s') :
    ((Engine.bounded (n + 1)).run limit).Turns i t v R s := by
  refine turns_runPrepared hs hf hl htoss ha hx (fun s1 _ => ?_) hnext
  exact (turns_returnVoid (f := f.stepped) rfl ha hr).mono fun _ m h => h ▸ .refl _

theorem turns_runSuper (hs : s.machine.Serves t.id)
    (hf : t.frames = keepingFrame c g o p [] 0 :: rest) (hl : limit ≤ rest.length)
    (hnext : ∀ s', s.machine.Prepares t.id s'.machine →
      ((Engine.bounded n).run limit).Turns i (t.holding (keepingFrame c g o p [] 2 :: rest)) v R s') :
    ((Engine.bounded (n + 3)).run limit).Turns i t v R s := by
  refine turns_runPrepared hs hf hl rfl rfl rfl (fun s1 _ => turns_loadThis rfl) fun s1 h1 => ?_
  refine turns_runPrepared (hs.continue h1.toContinues) rfl hl rfl rfl rfl
    (fun s2 h2 => turns_invokeObject h2 rfl) fun s2 h2 => ?_
  replace h2 := h1.trans h2
  exact turns_runReturn (hs.continue h2.toContinues) rfl (Nat.le_succ_of_le hl) rfl rfl rfl rfl
    fun s3 h3 => hnext s3 (h2.trans h3)

theorem turns_runOperands (hs : s.machine.Serves t.id)
    (hf : t.frames = keepingFrame c g o p [] 2 :: rest) (hl : limit ≤ rest.length)
    (hnext : ∀ s', s.machine.Prepares t.id s'.machine →
      ((Engine.bounded n).run limit).Turns i
        (t.holding (keepingFrame c g o p [.object p, .object o] 4 :: rest)) v R s') :
    ((Engine.bounded (n + 2)).run limit).Turns i t v R s := by
  refine turns_runPrepared hs hf hl rfl rfl rfl (fun s1 _ => turns_loadThis rfl) fun s1 h1 => ?_
  refine turns_runPrepared (hs.continue h1.toContinues) rfl hl rfl rfl rfl
    (fun s2 _ => turns_loadArgument rfl) fun s2 h2 => ?_
  exact hnext s2 (h1.trans h2)

theorem turns_runPut {x : Object} {w : Value} (hk : Keeps c g) (hs : s.machine.Serves t.id)
    (hf : t.frames = keepingFrame c g o p [.object p, .object o] 4 :: rest) (hl : limit ≤ rest.length)
    (ho : s.machine.heap.get? o = some x) (hx : x.klass.isAssignable c = true)
    (hw : x.field 0 = .ok w)
    (hnext : ∀ s', s.machine.Writes t.id (s.machine.heap.modify o (·.setField 0 (.object p)))
      s'.machine → ((Engine.bounded n).run limit).Turns i (t.holding rest) v R s') :
    ((Engine.bounded (n + 2)).run limit).Turns i t v R s := by
  refine turns_run (u := t.holding (keepingFrame c g o p [] 5 :: rest))
    (P := fun _ m => s.machine.Writes t.id
      (s.machine.heap.modify o (·.setField 0 (.object p))) m)
    hs hf hl rfl rfl rfl (fun s1 h1 => ?_) fun s1 h1 => ?_
  · have hput := turns_putKept (i := i) (e := Engine.bounded (n + 1))
      (t := t.holding (keepingFrame c g o p [.object p, .object o] 5 :: rest)) hk
      (hs.continue h1.toContinues) rfl (h1.heap ▸ ho) hx hw
    refine hput.mono fun _ m h => ?_
    rw [h1.heap] at h
    exact h1.writes.trans h
  · exact turns_runReturn (hs.continue h1.toContinues) rfl hl rfl rfl rfl rfl
      fun s2 h2 => hnext s2 (h1.prepare h2)

theorem turns_runKeeping {x : Object} {w : Value} (hk : Keeps c g) (hs : s.machine.Serves t.id)
    (hf : t.frames = keepingFrame c g o p [] 0 :: rest) (hl : limit ≤ rest.length)
    (ho : s.machine.heap.get? o = some x) (hx : x.klass.isAssignable c = true)
    (hw : x.field 0 = .ok w)
    (hnext : ∀ s', s.machine.Writes t.id (s.machine.heap.modify o (·.setField 0 (.object p)))
      s'.machine → ((Engine.bounded n).run limit).Turns i (t.holding rest) v R s') :
    ((Engine.bounded (n + 7)).run limit).Turns i t v R s := by
  refine turns_runSuper hs hf hl fun s1 h1 => ?_
  refine turns_runOperands (hs.continue h1.toContinues) rfl hl fun s2 h2 => ?_
  replace h2 := h1.trans h2
  refine turns_runPut hk (hs.continue h2.toContinues) rfl hl (h2.heap ▸ ho) hx hw fun s3 h3 => ?_
  rw [h2.heap] at h3
  exact hnext s3 (h2.writes.trans h3)

end Running

end Exec

end BytecodeMachine
