import BytecodeMachine.Proofs.Completion
import BytecodeMachine.Proofs.Loading.CoreClasses
import BytecodeMachine.Proofs.Sessions
import BytecodeMachine.Proofs.Setup.Threads

namespace BytecodeMachine

open InitState

namespace Exec

variable {e : Engine}

theorem settling_ended (he : e.Settled) (outcome : Except Trap Unit) :
    Settling .every [] (ended outcome) := by
  have fatal (fault : Fault) : Settling .every [] (do
      reportFatal fault
      pure (.error (.fatal fault)) : Exec (Except RunError Unit)) :=
    .bind (settling_reportFatal he fault) fun _ => .pure _
  have other (trap : Trap) : Settling .every [] (do
      let shown ← read fun m => m.shownTrap trap
      reportFatal (.couldNotRaiseTrap shown)
      pure (.error (.fatal (.couldNotRaiseTrap shown))) : Exec (Except RunError Unit)) :=
    .bind (.lift (Prog.isMild_read _).isNeutral) fun shown => fatal _
  rcases outcome with trap | ⟨⟩
  · cases trap with
    | fatal fault => exact fatal fault
    | throw o => exact other _
    | raise cause => exact other _
    | exit =>
      refine .bind settling_exitAllFrames fun _ => ?_
      refine .bind (.lift (Prog.isMild_read _).isNeutral) fun status => ?_
      cases status with
      | none => exact .pure _
      | some code => exact .pure _
  · refine .bind .get fun t => ?_
    split
    · exact .pure _
    · rename_i o _
      have hc : Built e .every .host [] (classOf o) := .classOf o
      exact .bind (hc.settling he) fun c => .pure _

theorem settling_runEntry (he : e.Settled) (p : EntryPoint) (arguments : List String) :
    Settling .every [] (runEntry e p arguments) := by
  have enter : Built e .every .call [] (enterEntry e p arguments) := .enterEntry p arguments
  refine .attempt_bind (.bind (enter.settling he) fun _ => he.run 0) fun r => ?_
  exact .attempt_bind ((Reporting.settle r).settling he) fun r => settling_ended he r

theorem settling_serve (he : e.Settled) (demands : List Demand) :
    Settling .every [] (serve e demands) := by
  induction demands with
  | nil => exact .pure ()
  | cons d rest ih =>
    refine .attempt_bind ?_ fun _ => ih
    cases d with
    | entry p arguments => exact .bind (settling_runEntry he p arguments) fun _ => .pure ()
    | setUp n => exact (Built.answer_setUp n).settling he
    | call ref arguments => exact (Built.answer_call ref arguments).settling he

end Exec

namespace Scene

def start (libraries : List Library) (natives : NativeTable) (settings : Settings)
    (stdout stderr : Pipe) (journal : Journal) : Scene :=
  ⟨.create libraries natives settings stdout stderr journal, []⟩

theorem coherent_start (libraries : List Library) (natives : NativeTable) (settings : Settings)
    (stdout stderr : Pipe) (journal : Journal) :
    (start libraries natives settings stdout stderr journal).Coherent where
  libraries := ⟨libraries, rfl⟩
  closed := ClassTable.closed_nil _
  depth _ hl := nomatch hl
  busy _ hn := nomatch hn
  finished _ _ hm := nomatch hm
  calls_le _ := Nat.zero_le 1
  calls_zero _ _ := rfl
  known _ hn := absurd rfl hn
  above _ _ _ hc := nomatch hc
  called _ _ _ hc := nomatch hc

end Scene

section Runs

variable {α : Type} {c c' : Pool α × Scene}

structure Secured (c : Pool α × Scene) : Prop where
  coherent : c.2.Coherent
  safe : ∀ i, (c.1 i).Safe (.setup i) c.2

theorem neutral_of_keeps {s : Scene} {m : Machine} (h : s.machine.Keeps m) :
    s.Neutral (s.become m) :=
  ⟨h.loads, rfl⟩

theorem Secured.step (h : Secured c) (hs : Pool.Step Machine.Keeps c c') : Secured c' where
  safe := by
    refine Contract.family_setup.step (fun i s m hm hc => ?_) h.safe hs
    exact ⟨(neutral_of_keeps hm).coherent hc, (neutral_of_keeps hm).rest i⟩
  coherent := by
    cases hs with
    | thread i hm => exact ((Contract.family_setup.moves (h.safe i) hm).1 h.coherent).1
    | outside hm => exact (neutral_of_keeps hm).coherent h.coherent

theorem Secured.run (h : Secured c) (hr : Pool.Run Machine.Keeps c c') : Secured c' := by
  induction hr with
  | refl => exact h
  | tail _ hs ih => exact ih.step hs

structure Advanced (s s' : Scene) : Prop where
  states : ∀ n, s'.state n = s.state n ∨
    s.state n = uninitialized ∧ s'.state n = initializing ∨
    s.state n = initializing ∧ s'.state n = initialized
  left : ∀ i n, s'.passed = (i, .setUpLeft n) :: s.passed → s.Left i n
  called : ∀ i n, s'.passed = (i, .initializer n) :: s.passed → s.Ready i n

theorem Secured.advanced (h : Secured c) (hs : Pool.Step Machine.Keeps c c') :
    Advanced c.2 c'.2 := by
  cases hs with
  | @thread p s s' q j hm =>
    have hmoved := ((Contract.family_setup.moves (h.safe j) hm).1 h.coherent).2.2
    have own {i : Nat} {x : Sign} (hx : s'.passed = (i, x) :: s.passed) : i = j := by
      rcases hm.passed with hp | ⟨y, hp⟩
      · exact absurd (hp.symm.trans hx) (List.cons_ne_self _ _).symm
      · cases hx.symm.trans hp
        rfl
    refine ⟨hmoved.states, fun i n hx => ?_, fun i n hx => ?_⟩
    · cases own hx
      exact hmoved.left n hx
    · cases own hx
      exact hmoved.called n hx
  | outside hm =>
    refine ⟨fun n => .inl ((neutral_of_keeps hm).state n), fun i n hx => ?_, fun i n hx => ?_⟩
    · exact absurd hx (List.cons_ne_self _ _).symm
    · exact absurd hx (List.cons_ne_self _ _).symm

theorem Secured.forward (h : Secured c) (hr : Pool.Run Machine.Keeps c c') (n : ClassName) :
    (c.2.state n ≠ uninitialized → c'.2.state n ≠ uninitialized) ∧
      (c.2.state n = initialized → c'.2.state n = initialized) := by
  induction hr with
  | refl => exact ⟨id, id⟩
  | tail hr hs ih =>
    have hstep := ((h.run hr).advanced hs).states n
    refine ⟨fun hn hu => ?_, fun hn => ?_⟩
    · have := ih.1 hn
      rcases hstep with hx | hx | hx
      · exact this (hx.symm.trans hu)
      · exact this hx.1
      · cases hx.2.symm.trans hu
    · have := ih.2 hn
      rcases hstep with hx | hx | hx
      · exact hx.trans this
      · cases hx.1.symm.trans this
      · cases hx.1.symm.trans this

end Runs

theorem Engine.secured_sessions (bound : Nat) (libraries : List Library) (natives : NativeTable)
    (settings : Settings) (stdout stderr : Pipe) (journal : Journal) (name : Nat → String)
    (demands : Nat → List Demand) :
    Secured ((bounded bound).sessions name demands,
      .start libraries natives settings stdout stderr journal) where
  coherent := Scene.coherent_start ..
  safe i := by
    have hs := Scene.coherent_start libraries natives settings stdout stderr journal
    have hset := Exec.settling_serve (settled_bounded bound) (demands i)
    have h := hset i (.start i (name i)) _ rfl ⟨hs, nofun, fun _ ho => nomatch ho⟩
    exact Prog.Meets.mono h fun _ _ _ => trivial

theorem Exec.setUp_shows (e : Engine) (k : Class) (i : Nat) (t : Thread) (s : Scene) :
    (setUp e k).Meets (.free i) t (fun _ _ s' => ∃ s1 : Scene, s' = s1.pass i (.setUpLeft k.name)) s :=
  meets_ending.2 (meets_free (fun _ _ _ s1 _ => ⟨trivial, s1, rfl⟩) _)

theorem Engine.setup_once_and_ordered (bound : Nat) (libraries : List Library)
    (natives : NativeTable) (settings : Settings) (stdout stderr : Pipe) (journal : Journal)
    (name : Nat → String) (demands : Nat → List Demand)
    {c : Pool (Except Trap Unit × Thread) × Scene}
    (hr : Pool.Run Machine.Keeps ((bounded bound).sessions name demands,
      .start libraries natives settings stdout stderr journal) c) :
    (∀ n, c.2.calls n ≤ 1) ∧
    (∀ n k, c.2.Spared → c.2.found n = some k → c.2.state n = initialized →
      (∃ m ∈ k.methods, m.name = .staticInitializer ∧ m.type = .void []) → c.2.calls n = 1) ∧
    (∀ c' n, Pool.Run Machine.Keeps c c' →
      (c.2.state n ≠ uninitialized → c'.2.state n ≠ uninitialized) ∧
        (c.2.state n = initialized → c'.2.state n = initialized)) ∧
    (∀ c', Pool.Step Machine.Keeps c c' →
      (∀ n, c'.2.state n = c.2.state n ∨
        c.2.state n = uninitialized ∧ c'.2.state n = initializing ∨
        c.2.state n = initializing ∧ c'.2.state n = initialized) ∧
      ∀ i n,
        (c'.2.passed = (i, .setUpLeft n) :: c.2.passed → c.2.Left i n) ∧
        (c'.2.passed = (i, .initializer n) :: c.2.passed → c.2.Spared →
          ∃ k, c.2.found n = some k ∧ c.2.Prepared i k)) ∧
    (∀ k i t s, (Exec.setUp (bounded bound) k).Meets (.free i) t
      (fun _ _ s' => ∃ s1 : Scene, s' = s1.pass i (.setUpLeft k.name)) s) ∧
    (∀ k t, c.2.found k.name = some k → c.2.Near t.id (some k.name) →
      (Exec.setUp (bounded bound) k).Meets (.setup t.id) t
        (fun _ t' s' => t'.id = t.id ∧ s'.Left t.id k.name) c.2) ∧
    (∀ i, (c.1 i).Safe (.setup i) c.2) ∧
    ∀ i j s s', i ≠ j → (Contract.setup i).guarantee s s' → (Contract.setup j).rely s s' := by
  have h := (secured_sessions bound libraries natives settings stdout stderr journal name
    demands).run hr
  refine ⟨h.coherent.calls_le, fun n k hsp hk hn ⟨m, hm, hname, htype⟩ => ?_,
    fun c' n hr' => h.forward hr' n, fun c' hs => ?_,
    fun k i t s => Exec.setUp_shows (bounded bound) k i t s, fun k t hk hnear => ?_, h.safe,
    Contract.family_setup.compatible⟩
  · refine h.coherent.called hsp n k hk hn (List.find?_isSome.2 ⟨m, hm, ?_⟩)
    rw [hname, htype, decide_eq_true rfl, decide_eq_true rfl]
    rfl
  · have ha := h.advanced hs
    exact ⟨ha.states, fun i n => ⟨ha.left i n, fun hx hsp => (ha.called i n hx).prepared hsp⟩⟩
  · refine (Exec.setUp_settles (settled_bounded bound) rfl h.coherent hk
      (Exec.Realm.every_setsUp k.name) fun _ => hnear).mono fun _ _ _ h' => ?_
    exact ⟨h'.1.1, h'.2⟩

section Sample

open Exec ClassTable CoreLibrary

def sampleName : ClassName := ⟨"Sample"⟩

def samplesName : ClassName := ⟨"[LSample;"⟩

def wordRef : FieldRef := ⟨sampleName, ⟨"y"⟩, .base .long⟩

def makeRef : MethodRef :=
  ⟨sampleName, ⟨"make"⟩, ⟨[.base .long, .base .int], some (.array (.object sampleName))⟩⟩

def makeCode : Code :=
  .plain 3 [.new sampleName, .load .long 0, .putField wordRef, .load .int 2,
    .newReferenceArray sampleName, .shuffle .dup, .const (.int 0), .new sampleName,
    .arrayStore .reference, .returnValue .reference]

def sampleData : ClassData :=
  ⟨sampleName, some .object, [], .plain, none,
    [⟨⟨Flag.isStatic ||| Flag.isFinal⟩, ⟨"x"⟩, .base .int, some (.numeral (.int 7))⟩,
      ⟨⟨0⟩, wordRef.name, wordRef.type, none⟩],
    [⟨⟨Flag.isStatic⟩, .staticInitializer, .void [], some (.plain 0 [.returnVoid])⟩,
      ⟨⟨Flag.isStatic⟩, makeRef.name, makeRef.type, some makeCode⟩]⟩

def sampleLibrary : Library := .ofClasses "samples" [sampleData] []

def sampleClass : Class := ClassTable.regular sampleName sampleData (some objectRecord) []

def samplesClass : Class := arrayRecord samplesName (.object sampleName) (some sampleClass)

def constantField : Field :=
  ⟨sampleName, ⟨"x"⟩, .base .int, ⟨Flag.isStatic ||| Flag.isFinal⟩, 0, none,
    some (.numeral (.int 7))⟩

def wordField : Field := ⟨sampleName, wordRef.name, wordRef.type, ⟨0⟩, 1, some 0, none⟩

def makeMethod : Method :=
  ⟨sampleName, makeRef.name, makeRef.type, ⟨Flag.isStatic⟩, some makeCode⟩

def sampleDemands : List Demand := [.setUp sampleName, .call makeRef [.long 6, .int 1]]

def sampleScene : Scene :=
  .start [sampleLibrary] .standard .standard .sound .sound (.ofVerbosity none)

def samplePool : Pool (Except Trap Unit × Thread) :=
  (Engine.bounded 12).sessions (fun _ => "main") fun _ => sampleDemands

def sampleTable : ClassTable := [(.object, objectRecord), (sampleName, sampleClass)]

def samplesTable : ClassTable :=
  sampleTable ++ [(.cloneable, cloneableRecord), (.serializable, serializableRecord),
    (samplesName, samplesClass)]

def sampleMachine (classes : ClassTable) (objects : Array Object) (allocated : Nat) : Machine :=
  { sampleScene.machine with
    classes := classes
    initStates := [(sampleName, .initialized), (.object, .initialized)]
    statics := [((sampleName, 0), .int 7)]
    heap := ⟨objects⟩
    allocated := allocated }

def wordObject (n : Int64) : Object := ⟨sampleClass, .fields #[.long n], none⟩

def samplesObject (r : Option ObjectId) : Object :=
  ⟨samplesClass, .array ⟨.reference, #[(r : Option ObjectId)]⟩, none⟩

def sampleThread : Thread := .start 1 "main"

def inMake (pc lastPc : Nat) (stack : List Value) : Thread :=
  { sampleThread with
    frames := [⟨some ⟨sampleClass, makeMethod⟩, #[.value (.long 6), .top, .value (.int 1)], stack,
      pc, lastPc, none, pc⟩, .blank] }

def afterMake : Thread :=
  { sampleThread with frames := [{ Frame.blank with stack := [.object ⟨1⟩] }] }

def sampleLater : Machine :=
  sampleMachine samplesTable #[wordObject 6, samplesObject (some ⟨2⟩), wordObject 0] 72

theorem load_sample :
    load sampleScene.machine.libraries [] sampleName [] = (.ok sampleClass, sampleTable) := by
  have hroot : load sampleScene.machine.libraries [sampleName] .object [] =
      (.ok objectRecord, [(.object, objectRecord)]) :=
    load_of_links rfl (by decide) rfl loadLinks_nil rfl
  exact load_of_links rfl (by decide) rfl (loadLinks_cons hroot rfl loadLinks_nil) rfl

theorem className?_samples : (FieldType.array (.object sampleName)).className? = some samplesName := by
  decide +kernel

theorem define_samples : define sampleScene.machine.libraries samplesName =
    .ok ⟨(.component, sampleName) :: arraySupers,
      fun cs => array samplesName (.object sampleName) cs.head? cs.tail⟩ := by
  have hp : FieldType.parse samplesName.text = .ok (.array (.object sampleName)) := by decide +kernel
  have ha : samplesName.isArray = true := by decide
  simp [define, defineArray, hp, ha, FieldType.className?]

theorem load_samples :
    load sampleScene.machine.libraries [] samplesName sampleTable =
      (.ok samplesClass, samplesTable) := by
  have hcloneable : load sampleScene.machine.libraries [samplesName] .cloneable sampleTable =
      (.ok cloneableRecord, sampleTable ++ [(.cloneable, cloneableRecord)]) :=
    load_of_links rfl (by decide) rfl (loadLinks_cons (load_of_get? rfl) rfl loadLinks_nil) rfl
  have hserializable : load sampleScene.machine.libraries [samplesName] .serializable
      (sampleTable ++ [(.cloneable, cloneableRecord)]) = (.ok serializableRecord, sampleTable ++
        [(.cloneable, cloneableRecord), (.serializable, serializableRecord)]) :=
    load_of_links rfl (by decide) rfl (loadLinks_cons (load_of_get? rfl) rfl loadLinks_nil) rfl
  exact load_of_links rfl (by decide) define_samples (loadLinks_cons (load_of_get? rfl) rfl
    (loadLinks_cons (load_of_get? rfl) rfl (loadLinks_cons hcloneable rfl
      (loadLinks_cons hserializable rfl loadLinks_nil)))) rfl

theorem resolve_make :
    (sampleMachine sampleTable #[] 0).resolve (fun l => .resolveMethod l makeRef none) =
      (.ok (sampleClass, makeMethod), sampleMachine sampleTable #[] 0) :=
  Machine.resolve_of_eq (Resolving.resolveMethod_of_load (load_of_get? rfl) rfl rfl nofun)

variable {objects : Array Object} {allocated : Nat}

theorem resolve_word :
    (sampleMachine sampleTable objects allocated).resolve
        (fun l => .resolveField l wordRef (some sampleClass)) =
      (.ok (sampleClass, wordField), sampleMachine sampleTable objects allocated) := by
  refine Machine.resolve_of_eq (Resolving.resolveField_of_load (load_of_get? rfl) rfl rfl rfl ?_)
  rintro _ ⟨⟩
  exact ⟨rfl, rfl⟩

theorem resolve_sample {table : ClassTable} (h : table.get? sampleName = some sampleClass) :
    (sampleMachine table objects allocated).resolve
        (fun l => .resolveClass l sampleName (some sampleClass)) =
      (.ok sampleClass, sampleMachine table objects allocated) := by
  refine Machine.resolve_of_eq (Resolving.resolveClass_of_load (load_of_get? h) ?_)
  rintro _ ⟨⟩
  rfl

theorem resolve_samples :
    (sampleMachine sampleTable objects allocated).resolve
        (fun l => .arrayClass l (.object sampleName)) =
      (.ok samplesClass, sampleMachine samplesTable objects allocated) := by
  refine Machine.resolve_eq (fun _ => rfl) ?_
  rw [Resolving.arrayClass, className?_samples]
  exact load_samples

variable {bound : Nat}

-- Whether the object suits the field does not compute either.
theorem endsAt_putWord {n : Int64} :
    (execute (.bounded bound) (.putField wordRef)).EndsAt 1 (inMake 3 2 [.long n, .object ⟨0⟩])
      (sampleMachine sampleTable #[wordObject 0] allocated) (.ok ()) (inMake 3 2 [])
      (sampleMachine sampleTable #[wordObject n] allocated) := by
  have hclass : (classOf ⟨0⟩).EndsAt 1 (inMake 3 2 [])
      (sampleMachine sampleTable #[wordObject 0] allocated) (.ok sampleClass) (inMake 3 2 [])
      (sampleMachine sampleTable #[wordObject 0] allocated) :=
    .of_iterate 1 fun _ => ⟨_, rfl⟩
  refine .bind (.of_resolve 0 0 resolve_word fun _ => ⟨_, _, _, rfl, rfl⟩) ?_
  refine .bind (.of_iterate 0 fun _ => ⟨_, rfl⟩) ?_
  refine .bind (.of_iterate 0 fun _ => ⟨_, rfl⟩) ?_
  refine .bind (.of_iterate 0 fun _ => ⟨_, rfl⟩) ?_
  refine .bind hclass ?_
  dsimp only
  rw [Class.isAssignable_self]
  exact .of_iterate 2 fun _ => ⟨_, rfl⟩

theorem endsAt_newSamples :
    (execute (.bounded bound) (.newReferenceArray sampleName)).EndsAt 1 (inMake 5 4 [.int 1])
      (sampleMachine sampleTable #[wordObject 6] 24) (.ok ()) (inMake 5 4 [.object ⟨1⟩])
      (sampleMachine samplesTable #[wordObject 6, samplesObject none] 48) := by
  have hresolve : (resolveClass sampleName).EndsAt 1 (inMake 5 4 [])
      (sampleMachine sampleTable #[wordObject 6] 24) (.ok sampleClass) (inMake 5 4 [])
      (sampleMachine sampleTable #[wordObject 6] 24) :=
    .of_resolve 0 0 (resolve_sample rfl) fun _ => ⟨_, _, _, rfl, rfl⟩
  have harray : (arrayClass (.object sampleName)).EndsAt 1 (inMake 5 4 [])
      (sampleMachine sampleTable #[wordObject 6] 24) (.ok samplesClass) (inMake 5 4 [])
      (sampleMachine samplesTable #[wordObject 6] 24) :=
    .of_resolve 0 0 resolve_samples fun _ => ⟨_, _, _, rfl, rfl⟩
  refine .bind (.of_iterate 0 fun _ => ⟨_, rfl⟩) (hresolve.bind ?_)
  exact harray.bind (.of_iterate 9 fun _ => ⟨_, rfl⟩)

theorem endsAt_storeSample :
    let m := sampleMachine samplesTable #[wordObject 6, samplesObject none, wordObject 0] 72
    (execute (.bounded bound) (.arrayStore .reference)).EndsAt 1
      (inMake 9 8 [.object ⟨2⟩, .int 0, .object ⟨1⟩, .object ⟨1⟩]) m (.ok ())
      (inMake 9 8 [.object ⟨1⟩]) sampleLater := by
  intro m
  have hclass : (classOf ⟨2⟩).EndsAt 1 (inMake 9 8 [.object ⟨1⟩]) m (.ok sampleClass)
      (inMake 9 8 [.object ⟨1⟩]) m :=
    .of_iterate 1 fun _ => ⟨_, rfl⟩
  have hcheck : (checkElement (samplesObject none) (some ⟨2⟩)).EndsAt 1
      (inMake 9 8 [.object ⟨1⟩]) m (.ok ()) (inMake 9 8 [.object ⟨1⟩]) m := by
    refine .bind hclass ?_
    rw [Class.isAssignable_self]
    exact .of_iterate 0 fun _ => ⟨_, rfl⟩
  refine .bind (.of_iterate 0 fun _ => ⟨_, rfl⟩) ?_
  refine .bind (.of_iterate 0 fun _ => ⟨_, rfl⟩) ?_
  refine .bind (.of_iterate 0 fun _ => ⟨_, rfl⟩) ?_
  refine .bind (.of_iterate 1 fun _ => ⟨_, rfl⟩) ?_
  refine .bind (.of_iterate 0 fun _ => ⟨_, rfl⟩) ?_
  refine .bind (.of_iterate 0 fun _ => ⟨_, rfl⟩) ?_
  refine .bind (.of_iterate 0 fun _ => ⟨_, rfl⟩) ?_
  refine .bind hcheck ?_
  exact .of_iterate 2 fun _ => ⟨_, rfl⟩

theorem endsAt_runMake :
    ((Engine.bounded 12).run 1).EndsAt 1 (inMake 0 0 []) (sampleMachine sampleTable #[] 0)
      (.ok ()) afterMake sampleLater := by
  have hnew : (step (.bounded 11)).EndsAt 1 (inMake 0 0 []) (sampleMachine sampleTable #[] 0)
      (.ok ()) (inMake 1 0 [.object ⟨0⟩]) (sampleMachine sampleTable #[wordObject 0] 24) :=
    .of_resolve 2 20 (resolve_sample rfl) fun _ => ⟨_, _, _, rfl, rfl⟩
  have hload : (step (.bounded 10)).EndsAt 1 (inMake 1 0 [.object ⟨0⟩])
      (sampleMachine sampleTable #[wordObject 0] 24) (.ok ()) (inMake 2 1 [.long 6, .object ⟨0⟩])
      (sampleMachine sampleTable #[wordObject 0] 24) :=
    .of_iterate 2 fun _ => ⟨_, rfl⟩
  have hput : (step (.bounded 9)).EndsAt 1 (inMake 2 1 [.long 6, .object ⟨0⟩])
      (sampleMachine sampleTable #[wordObject 0] 24) (.ok ()) (inMake 3 2 [])
      (sampleMachine sampleTable #[wordObject 6] 24) :=
    .bind (.of_iterate 1 fun _ => ⟨_, rfl⟩) (.bind (.of_iterate 1 fun _ => ⟨_, rfl⟩)
      endsAt_putWord)
  have hlength : (step (.bounded 8)).EndsAt 1 (inMake 3 2 [])
      (sampleMachine sampleTable #[wordObject 6] 24) (.ok ()) (inMake 4 3 [.int 1])
      (sampleMachine sampleTable #[wordObject 6] 24) :=
    .of_iterate 2 fun _ => ⟨_, rfl⟩
  have harray : (step (.bounded 7)).EndsAt 1 (inMake 4 3 [.int 1])
      (sampleMachine sampleTable #[wordObject 6] 24) (.ok ()) (inMake 5 4 [.object ⟨1⟩])
      (sampleMachine samplesTable #[wordObject 6, samplesObject none] 48) :=
    .bind (.of_iterate 1 fun _ => ⟨_, rfl⟩) (.bind (.of_iterate 1 fun _ => ⟨_, rfl⟩)
      endsAt_newSamples)
  have hdup : (step (.bounded 6)).EndsAt 1 (inMake 5 4 [.object ⟨1⟩])
      (sampleMachine samplesTable #[wordObject 6, samplesObject none] 48) (.ok ())
      (inMake 6 5 [.object ⟨1⟩, .object ⟨1⟩])
      (sampleMachine samplesTable #[wordObject 6, samplesObject none] 48) :=
    .of_iterate 2 fun _ => ⟨_, rfl⟩
  have hconst : (step (.bounded 5)).EndsAt 1 (inMake 6 5 [.object ⟨1⟩, .object ⟨1⟩])
      (sampleMachine samplesTable #[wordObject 6, samplesObject none] 48) (.ok ())
      (inMake 7 6 [.int 0, .object ⟨1⟩, .object ⟨1⟩])
      (sampleMachine samplesTable #[wordObject 6, samplesObject none] 48) :=
    .of_iterate 2 fun _ => ⟨_, rfl⟩
  have hother : (step (.bounded 4)).EndsAt 1 (inMake 7 6 [.int 0, .object ⟨1⟩, .object ⟨1⟩])
      (sampleMachine samplesTable #[wordObject 6, samplesObject none] 48) (.ok ())
      (inMake 8 7 [.object ⟨2⟩, .int 0, .object ⟨1⟩, .object ⟨1⟩])
      (sampleMachine samplesTable #[wordObject 6, samplesObject none, wordObject 0] 72) :=
    .of_resolve 2 20 (resolve_sample rfl) fun _ => ⟨_, _, _, rfl, rfl⟩
  have hstore : (step (.bounded 3)).EndsAt 1
      (inMake 8 7 [.object ⟨2⟩, .int 0, .object ⟨1⟩, .object ⟨1⟩])
      (sampleMachine samplesTable #[wordObject 6, samplesObject none, wordObject 0] 72) (.ok ())
      (inMake 9 8 [.object ⟨1⟩]) sampleLater :=
    .bind (.of_iterate 1 fun _ => ⟨_, rfl⟩) (.bind (.of_iterate 1 fun _ => ⟨_, rfl⟩)
      endsAt_storeSample)
  have hreturn : (step (.bounded 2)).EndsAt 1 (inMake 9 8 [.object ⟨1⟩]) sampleLater (.ok ())
      afterMake sampleLater :=
    .of_iterate 2 fun _ => ⟨_, rfl⟩
  exact .run_step rfl rfl hnew <| .run_step rfl rfl hload <| .run_step rfl rfl hput <|
    .run_step rfl rfl hlength <| .run_step rfl rfl harray <| .run_step rfl rfl hdup <|
    .run_step rfl rfl hconst <| .run_step rfl rfl hother <| .run_step rfl rfl hstore <|
    .run_step rfl rfl hreturn <| .run_within rfl

theorem endsAt_answerMake :
    (answer (.bounded 12) (.call makeRef [.long 6, .int 1])).EndsAt 1 sampleThread
      (sampleMachine sampleTable #[] 0) (.ok ()) sampleThread sampleLater := by
  have hresolve : (resolveMethod makeRef).EndsAt 1 sampleThread (sampleMachine sampleTable #[] 0)
      (.ok (sampleClass, makeMethod)) sampleThread (sampleMachine sampleTable #[] 0) :=
    .of_resolve 0 0 resolve_make fun _ => ⟨_, _, _, rfl, rfl⟩
  have hnote : (note (.hostCall makeMethod.ref)).EndsAt 1 sampleThread
      (sampleMachine sampleTable #[] 0) (.ok ()) sampleThread (sampleMachine sampleTable #[] 0) :=
    .of_iterate 1 fun _ => ⟨_, rfl⟩
  have henter : (enterMethod (.bounded 12) sampleClass makeMethod [.long 6, .int 1]).EndsAt 1
      { sampleThread with frames := [.blank] } (sampleMachine sampleTable #[] 0) (.ok ())
      (inMake 0 0 []) (sampleMachine sampleTable #[] 0) :=
    .of_iterate 1 fun _ => ⟨_, rfl⟩
  have htake : takeResult.EndsAt 1 afterMake sampleLater (.ok (some (.object ⟨1⟩))) sampleThread
      sampleLater :=
    .of_iterate 0 fun _ => ⟨_, rfl⟩
  have hinvoke : (invokeMethod (.bounded 12) sampleClass makeMethod [.long 6, .int 1]).EndsAt 1
      sampleThread (sampleMachine sampleTable #[] 0) (.ok (some (.object ⟨1⟩))) sampleThread
      sampleLater := by
    refine hnote.bind (.bind (.of_iterate 0 fun _ => ⟨_, rfl⟩) ?_)
    refine .bind (.of_iterate 0 fun _ => ⟨_, rfl⟩) ((henter.bind endsAt_runMake).attempt_bind ?_)
    exact htake
  exact hresolve.bind (hinvoke.bind (.of_iterate 0 fun _ => ⟨_, rfl⟩))

theorem runs_sample :
    ∃ l, Prog.Runs 1 (samplePool 1, sampleScene)
        ((serve (.bounded 12) [.call makeRef [.long 6, .int 1]]).on sampleThread,
          ⟨sampleMachine sampleTable #[] 0, l⟩) ∧
      l.all (!·.2.isFailure) = true := by
  have hresolve : sampleScene.machine.resolve (fun l => .loadClass l sampleName) =
      (.ok sampleClass, { sampleScene.machine with classes := sampleTable }) :=
    Machine.resolve_eq (fun _ => rfl) load_sample
  exact ⟨_, Prog.runs_of_step 28 rfl hresolve rfl, rfl⟩

theorem run_sample (outside : Machine → Machine → Prop) :
    ∃ c c', Pool.Run outside (samplePool, sampleScene) c ∧ Pool.Run outside c c' ∧
      c.2.machine = sampleMachine sampleTable #[] 0 ∧ c.2.Spared ∧ c'.2.machine = sampleLater := by
  obtain ⟨l, hr, hl⟩ := runs_sample
  have hserve : (serve (.bounded 12) [.call makeRef [.long 6, .int 1]]).EndsAt 1 sampleThread
      (sampleMachine sampleTable #[] 0) (.ok ()) sampleThread sampleLater :=
    endsAt_answerMake.attempt_bind (.of_iterate 0 fun _ => ⟨_, rfl⟩)
  obtain ⟨a, s', hr', -, -, hs'⟩ := Prog.ends_iff_runs.1 (hserve l)
  refine ⟨_, _, Pool.run_of_moves hr, Pool.run_of_moves (i := 1) (c := (.done a, s')) ?_, rfl,
    fun e he => ?_, hs'⟩
  · rwa [Function.update_self]
  · simpa using List.all_eq_true.1 hl e he

end Sample

theorem Secured.exists_underway {α : Type} {c c' : Pool α × Scene} {n : ClassName} (h : Secured c)
    (hn : c.2.state n = uninitialized) (hr : Pool.Run Machine.Keeps c c')
    (hn' : c'.2.state n = initialized) :
    ∃ c1, Pool.Run Machine.Keeps c c1 ∧ Pool.Run Machine.Keeps c1 c' ∧
      c1.2.state n = initializing := by
  induction hr using Relation.ReflTransGen.head_induction_on with
  | refl => cases hn.symm.trans hn'
  | head hs hr ih =>
    rcases (h.advanced hs).states n with hx | hx | hx
    · obtain ⟨c1, hr1, hr2, h1⟩ := ih (h.step hs) (hx.trans hn)
      exact ⟨c1, .head hs hr1, hr2, h1⟩
    · exact ⟨_, .single hs, hr, hx.2⟩
    · cases hn.symm.trans hx.1

theorem Engine.setup_once_and_ordered_of_sample :
    ∃ c c', Pool.Run Machine.Keeps (samplePool, sampleScene) c ∧ Pool.Run Machine.Keeps c c' ∧
      c.2.state sampleName = initializing ∧ c.2.calls sampleName ≤ 1 ∧
      c'.2.state sampleName = initialized ∧ c'.2.calls sampleName = 1 ∧
      (Exec.setUp (bounded 12) sampleClass).Meets (.setup 2) (.start 2 "main")
        (fun _ t' s' => t'.id = 2 ∧ s'.Left 2 sampleName) c'.2 := by
  obtain ⟨c', -, hr', -, hm, hspared, -⟩ := run_sample Machine.Keeps
  have hfound : c'.2.found sampleName = some sampleClass := by rw [Scene.found, hm]; rfl
  have hdone : c'.2.state sampleName = initialized := by rw [Scene.state, hm]; rfl
  have howner : c'.2.owner = none := by rw [Scene.owner, hm]; rfl
  have hstart := secured_sessions 12 [sampleLibrary] .standard .standard .sound .sound
    (.ofVerbosity none) (fun _ => "main") fun _ => sampleDemands
  obtain ⟨c, hr, hrc, hn⟩ := hstart.exists_underway rfl hr' hdone
  have h := setup_once_and_ordered 12 [sampleLibrary] .standard .standard .sound .sound
    (.ofVerbosity none) (fun _ => "main") (fun _ => sampleDemands) hr
  obtain ⟨-, honce, -, -, -, hreturns, -⟩ := setup_once_and_ordered 12 [sampleLibrary]
    .standard .standard .sound .sound (.ofVerbosity none) (fun _ => "main")
    (fun _ => sampleDemands) hr'
  refine ⟨c, c', hr, hrc, hn, h.1 _, hdone, ?_, ?_⟩
  · exact honce _ _ hspared hfound hdone ⟨_, List.mem_cons_self, rfl, rfl⟩
  · refine hreturns sampleClass (.start 2 "main") hfound fun ho => ?_
    cases howner.symm.trans ho

end BytecodeMachine
