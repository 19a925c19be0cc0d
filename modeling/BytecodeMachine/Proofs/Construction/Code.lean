import BytecodeMachine.Proofs.Construction.Natives

namespace BytecodeMachine.Exec

def readyStatic (e : Engine) (ref : FieldRef) : Exec (Field × Value) := do
  let (c, f) ← resolveField ref
  if !f.isStatic then
    raise (.fieldNotStatic f.ref)
  checkFinalWrite f .staticInitializer
  e.setUp c
  let v ← inFrame .pop
  checkStored f v
  pure (f, v)

theorem putStatic_eq (e : Engine) (ref : FieldRef) :
    putStatic e ref = readyStatic e ref >>= fun a => setStatic a.1 a.2 := by
  unfold putStatic readyStatic
  rw [bind_assoc]
  refine bind_congr fun ⟨c, f⟩ => ?_
  dsimp only
  cases f.isStatic <;> simp [bind_assoc]

namespace Built

variable {α : Type} {e : Engine} {z : Realm} {r : Reach} {known : Known}

section Frames

theorem pop : Built e z .frame known (Exec.inFrame .pop) := .frame _ FrameM.stackOnly_pop

theorem popInt : Built e z .frame known (Exec.inFrame .popInt) := .frame _ FrameM.stackOnly_popInt

theorem popReference : Built e z .frame known (Exec.inFrame .popReference) :=
  .frame _ FrameM.stackOnly_popReference

theorem popObject (context : String) : Built e z .frame known (Exec.inFrame (.popObject context)) :=
  .frame _ (FrameM.stackOnly_popObject context)

theorem popMany (count : Nat) : Built e z .frame known (Exec.inFrame (.popMany count)) :=
  .frame _ (FrameM.stackOnly_popMany count)

theorem onTop {action : FrameM α} (h : action.Gentle) :
    Built e z .call known (Exec.inFrame action) :=
  .frame action h

theorem push (v : Value) : Built e z .call known (Exec.push v) :=
  .onTop (FrameM.stackOnly_push v).gentle

theorem expectElements (i : Instruction) (k : ElementKind) (s : ArrayStorage) :
    Built e z r known (Exec.expectElements i k s) := by
  unfold Exec.expectElements
  split
  · exact .pure ()
  · exact .fail _

theorem arrayLoad (k : ElementKind) : Built e z .call known (Exec.arrayLoad k) := by
  refine .bind .popInt fun index => .bind (.popObject _) fun o => .bind (.storage o) fun s => ?_
  exact .bind (.expectElements _ _ _) fun _ => .bind (.ofTrap _) fun v => .push v

theorem checkElement (array : Object) (element : Option ObjectId) :
    Built e z r known (Exec.checkElement array element) := by
  unfold Exec.checkElement
  split
  · refine .bind (.classOf _) fun found => ?_
    split
    · exact .raise _
    · exact .pure ()
  · exact .pure ()

theorem storeReference : Built e z .call known Exec.storeReference := by
  refine .bind .popReference fun element => .bind .popInt fun index => ?_
  refine .bind (.popObject _) fun o => .bind (.object o) fun array => ?_
  refine .bind (.ofExcept _) fun s => .bind (.expectElements _ _ _) fun _ => ?_
  exact .bind (.ofTrap _) fun _ => .bind (.checkElement array element) fun _ => .storeElement _ _ _

theorem arrayStore (k : ElementKind) : Built e z .call known (Exec.arrayStore k) := by
  unfold Exec.arrayStore
  split
  · exact .storeReference
  · refine .bind .pop fun v => .bind .popInt fun index => ?_
    refine .bind (.popObject _) fun o => .bind (.storage o) fun _ => ?_
    exact .bind (.expectElements _ _ _) fun _ => .storeElement _ _ _

theorem arrayLength : Built e z .call known Exec.arrayLength :=
  .bind (.popObject _) fun o => .bind (.storage o) fun _ => .push _

theorem newPrimitiveArray (b : BaseType) :
    Built e z .call known (Exec.newPrimitiveArray b) := by
  refine .bind .popInt fun count => .check (.raise _) fun _ => ?_
  exact .bind (.arrayClass _) fun c => .bind (.newArray c _) fun o => .push _

theorem newReferenceArray (n : ClassName) :
    Built e z .call known (Exec.newReferenceArray n) := by
  refine .bind .popInt fun count => .resolveClass_bind fun component => ?_
  refine .check (.raise _) fun _ => ?_
  split
  · exact .fail _
  · exact .bind (.arrayClass _) fun c => .bind (.newArray c _) fun o => .push _

theorem asInts (vs : List Value) : Built e z r known (Exec.asInts vs) := by
  induction vs generalizing r with
  | nil => exact .pure []
  | cons v rest ih => exact .bind (.ofExcept _) fun n => .bind ih fun ns => .pure _

theorem fillDimensions {array : ObjectId} {component : Class} {size : Nat} {inner : List Nat}
    (hd : ∀ r, Built e z r known (Exec.newDimensions component size inner)) (index left : Nat) :
    Built e z r known (Exec.fillDimensions array component size inner index left) := by
  induction left generalizing index r with
  | zero =>
    rw [Exec.fillDimensions]
    exact .pure ()
  | succ left ih =>
    rw [Exec.fillDimensions]
    exact .bind (hd _) fun o => .bind (.storeElement _ _ _) fun _ => ih (index + 1)

theorem newDimensions (c : Class) (count : Nat) (inner : List Nat) :
    Built e z r known (Exec.newDimensions c count inner) := by
  induction inner generalizing c count r with
  | nil =>
    rw [Exec.newDimensions]
    exact .bind (.newArray c count) fun o => .pure o
  | cons size rest ih =>
    rw [Exec.newDimensions]
    refine .bind (.newArray c count) fun o => ?_
    dsimp only
    split
    · exact .fail _
    · exact .bind (.fillDimensions (fun _ => ih _ _) 0 count) fun _ => .pure o

theorem newMultiArray (n : ClassName) (dimensions : Nat) :
    Built e z .call known (Exec.newMultiArray n dimensions) := by
  refine .resolveClass_bind fun c => .check (.fail _) fun _ => ?_
  refine .bind (.popMany _) fun vs => .bind (.asInts vs) fun counts => ?_
  split
  · exact .raise _
  · split
    · exact .fail _
    · exact .bind (.newDimensions c _ _) fun o => .push _

theorem static (f : Field) : Built e z r known (Exec.static f) := .locked (.read _)

theorem firstValue (f : Field) : Built e z r known (Exec.firstValue e f) := by
  unfold Exec.firstValue
  split
  · exact .bind (.intern _) fun o => .pure _
  · exact .pure _
  · exact .pure _

theorem loadConstant (c : Constant) : Built e z .call known (Exec.loadConstant e c) := by
  cases c with
  | numeral n => exact .push _
  | string text => exact .bind (.intern text) fun o => .push _
  | klass n => exact .resolveClass_bind fun c => .bind (.classObject c.name) fun o => .push _

theorem checkFinalWrite (f : Field) (initializer : MemberName) :
    Built e z r known (Exec.checkFinalWrite f initializer) := by
  refine .bind .get fun t => ?_
  dsimp only
  split
  · exact .raise _
  · exact .pure ()

theorem checkStored (f : Field) (v : Value) : Built e z r known (Exec.checkStored f v) := by
  unfold Exec.checkStored
  split
  · exact .pure ()
  · exact .fail _

theorem getField (ref : FieldRef) : Built e z .call known (Exec.getField ref) := by
  refine .resolveField_bind fun ⟨c, f⟩ => .check (.raise _) fun _ => ?_
  refine .bind (.popObject _) fun o => .bind (.classOf o) fun found => .check (.fail _) fun _ => ?_
  exact .bind (.field o _) fun v => .push v

theorem putField (ref : FieldRef) : Built e z .frame known (Exec.putField ref) := by
  refine .resolveField_bind fun ⟨c, f⟩ => .check (.raise _) fun _ => ?_
  refine .bind (.checkFinalWrite _ _) fun _ => .bind .pop fun v => ?_
  refine .bind (.popObject _) fun o => .bind (.classOf o) fun found => .check (.fail _) fun _ => ?_
  exact .bind (.checkStored _ _) fun _ => .setField _ _ _

theorem topReference : Built e z .frame known Exec.topReference := by
  refine .bind (.frame _ (FrameM.stackOnly_get.bind fun _ => FrameM.stackOnly_pure _)) fun top => ?_
  split
  · exact .pure _
  · exact .fail _
  · exact .fail _

theorem checkCast (n : ClassName) : Built e z .call known (Exec.checkCast n) := by
  refine .resolveClass_bind fun c => .bind .topReference fun top => ?_
  cases top with
  | none => exact .pure ()
  | some o =>
    refine .bind (.classOf o) fun found => ?_
    split
    · exact .raise _
    · exact .pure ()

theorem instanceOf (n : ClassName) : Built e z .call known (Exec.instanceOf n) := by
  refine .resolveClass_bind fun c => .bind .popReference fun top => ?_
  cases top with
  | none => exact .push _
  | some o => exact .bind (.classOf o) fun found => .push _

theorem receiverOf (m : Method) (arguments : List Value) :
    Built e z r known (Exec.receiverOf m arguments) := by
  unfold Exec.receiverOf
  split
  · exact .pure _
  · exact .raise _
  · exact .fail _

theorem specialTarget_bind {ref : MethodRef} {owner : Class} {m : Method}
    {f : Class × Method → Exec α}
    (hf : ∀ {known' : Known} {c target}, (Known.Owns known owner m → Known.Owns known' c target) →
      Built e z r known' (f (c, target))) :
    Built e z r known (Exec.specialTarget ref owner m >>= f) := by
  unfold Exec.specialTarget
  rw [bind_assoc]
  refine .bind .get fun t => ?_
  split
  · exact hf id
  · split
    · exact hf id
    · rw [bind_assoc]
      refine .loadClass_bind fun named => ?_
      split
      · exact hf (·.cons _)
      · split
        · exact .raise _
        · rw [bind_assoc]
          exact .loadClass_bind fun c => hf fun _ => .named List.mem_cons_self

theorem specialTarget (ref : MethodRef) (owner : Class) (m : Method) :
    Built e z r known (Exec.specialTarget ref owner m) := by
  have : Built e z r known (Exec.specialTarget ref owner m >>= Pure.pure) :=
    .specialTarget_bind fun _ => .pure _
  rwa [bind_pure] at this

theorem warn (m : Method) (steps : Nat) : Built e z r known (Exec.fetch.warn m steps) := by
  refine .bind (.read _) fun every => ?_
  split
  · exact .bind .get fun t => .note rfl
  · exact .pure ()

end Frames

section Calls

theorem getStatic (ref : FieldRef) : Built e .every .call known (Exec.getStatic e ref) := by
  refine .resolveField_bind fun ⟨c, f⟩ => .check (.raise _) fun _ => ?_
  refine .bind (.setUp List.mem_cons_self (Realm.every_setsUp _)) fun _ => ?_
  exact .bind (.static f) fun v => .push v

theorem readyStatic (ref : FieldRef) : Built e .every .frame known (Exec.readyStatic e ref) := by
  refine .resolveField_bind fun ⟨c, f⟩ => .check (.raise _) fun _ => ?_
  refine .bind (.checkFinalWrite _ _) fun _ => ?_
  refine .bind (.setUp List.mem_cons_self (Realm.every_setsUp _)) fun _ => ?_
  exact .bind .pop fun v => .bind (.checkStored f v) fun _ => .pure _

theorem newInstance (n : ClassName) : Built e .every .call known (Exec.newInstance e n) := by
  refine .resolveClass_bind fun c => .bind ?_ fun o => .push _
  exact .allocateInstance List.mem_cons_self (Realm.every_setsUp _)

theorem invokeStatic {owner : Class} {m : Method} (ho : (m.owner, owner) ∈ known) :
    Built e .every .call known (Exec.invokeStatic e owner m) := by
  refine .check (.raise _) fun _ => .bind (.setUp ho (Realm.every_setsUp _)) fun _ => ?_
  exact .bind (.popMany _) fun arguments => .enter arguments (.named ho) rfl

theorem invokeSpecial (ref : MethodRef) {owner : Class} {m : Method}
    (ho : Known.Owns known owner m) :
    Built e .every .call known (Exec.invokeSpecial e ref owner m) := by
  refine .check (.raise _) fun _ => .specialTarget_bind fun ht => ?_
  refine .bind (.popMany _) fun arguments => .bind (.receiverOf _ _) fun _ => ?_
  exact .check (.raise _) fun _ => .enter _ (ht ho) rfl

theorem enterDynamic (ref : MethodRef) (m : Method) (runtime : Class) (arguments : List Value) :
    Built e .every .call known (match dynamicTarget? ref m runtime with
      | none => Exec.raise (.bodilessOn ref runtime.name)
      | some target => do
          if target.isStatic then
            Exec.raise (.methodStatic target.ref)
          let c ← Exec.loadClass target.owner
          Exec.enterMethod e c target arguments) := by
  split
  · exact .raise _
  · refine .check (.raise _) fun _ => .loadClass_bind fun c => ?_
    exact .enter arguments (.named List.mem_cons_self) rfl

theorem invokeDynamic (isInterface : Bool) (ref : MethodRef) (m : Method) :
    Built e .every .call known (Exec.invokeDynamic e isInterface ref m) := by
  refine .bind (.popMany _) fun arguments => .bind (.receiverOf _ _) fun o => ?_
  refine .bind (.classOf o) fun runtime => ?_
  dsimp only
  split
  · refine .bind (.loadClass _) fun interface => ?_
    split
    · exact .bind (.raise _) fun _ => .enterDynamic ref m runtime arguments
    · exact .enterDynamic ref m runtime arguments
  · exact .enterDynamic ref m runtime arguments

theorem invokeBy (k : InvokeKind) (ref : MethodRef) :
    Built e .every .call known (Exec.invoke e k ref) := by
  refine .resolveMethod_bind fun ⟨owner, m⟩ => ?_
  cases k with
  | static => exact .invokeStatic List.mem_cons_self
  | special => exact .invokeSpecial ref (.named List.mem_cons_self)
  | virtual => exact .invokeDynamic false ref m
  | interface => exact .invokeDynamic true ref m

theorem execute (i : Instruction) :
    (∃ ref, i = .putStatic ref) ∨ Built e .every .call known (Exec.execute e i) := by
  refine Classical.or_iff_not_imp_left.2 fun hi => ?_
  cases i with
  | nop => exact .pure ()
  | nullConst => exact .push _
  | const n => exact .push _
  | ldc c => exact .loadConstant c
  | arrayLoad k => exact .arrayLoad k
  | arrayStore k => exact .arrayStore k
  | load k slot => exact .onTop (FrameM.stackOnly_loadLocal k slot).gentle
  | store k slot => exact .onTop (FrameM.gentle_storeLocal k slot)
  | shuffle s => exact .onTop (FrameM.stackOnly_shuffle s).gentle
  | arithmetic op n => exact .onTop (FrameM.stackOnly_arithmetic op n).gentle
  | negate n => exact .onTop (FrameM.stackOnly_negate n).gentle
  | shift s w => exact .onTop (FrameM.stackOnly_shift s w).gentle
  | bitwise op w => exact .onTop (FrameM.stackOnly_bitwise op w).gentle
  | increment slot delta => exact .onTop (FrameM.gentle_increment slot delta)
  | convert c => exact .onTop (FrameM.stackOnly_convert c).gentle
  | compareLong => exact .onTop FrameM.stackOnly_compareLong.gentle
  | compareFloat p => exact .onTop (FrameM.stackOnly_compareFloat p).gentle
  | compareDouble p => exact .onTop (FrameM.stackOnly_compareDouble p).gentle
  | ifZero c target => exact .onTop (FrameM.gentle_ifZero c target)
  | ifInts c target => exact .onTop (FrameM.gentle_ifInts c target)
  | ifSame t target => exact .onTop (FrameM.gentle_ifSame t target)
  | ifNull t target => exact .onTop (FrameM.gentle_ifNull t target)
  | goto target => exact .onTop (FrameM.gentle_jump target)
  | tableSwitch default low targets => exact .onTop (FrameM.gentle_tableSwitch default low targets)
  | lookupSwitch default targets => exact .onTop (FrameM.gentle_lookupSwitch default targets)
  | returnValue k => exact .leave true
  | returnVoid => exact .leave false
  | getStatic f => exact .getStatic f
  | putStatic f => exact absurd ⟨f, rfl⟩ hi
  | getField f => exact .getField f
  | putField f => exact (putField f).widen
  | invoke k m => exact .invokeBy k m
  | new n => exact .newInstance n
  | newArray b => exact .newPrimitiveArray b
  | newReferenceArray n => exact .newReferenceArray n
  | newMultiArray n dimensions => exact .newMultiArray n dimensions
  | arrayLength => exact .arrayLength
  | throw => exact .bind (.popObject _) fun o => .throw _
  | checkCast n => exact .checkCast n
  | instanceOf n => exact .instanceOf n
  | monitorEnter =>
    refine .bind (.popObject _) fun o => .bind .get fun t => ?_
    exact .bind (.lift (Prog.isMild_enterMonitor _ o)) fun outcome => .ofTrap outcome
  | monitorExit =>
    refine .bind (.popObject _) fun o => .bind .get fun t => ?_
    exact .bind (.lift (Prog.isMild_exitMonitor _ o true)) fun outcome => .ofTrap outcome

theorem enterEntry (p : EntryPoint) (arguments : List String) :
    Built e .every .call known (Exec.enterEntry e p arguments) := by
  refine .loadClass_bind fun c => ?_
  refine .bind (.setUp List.mem_cons_self (Realm.every_setsUp _)) fun _ => ?_
  split
  · exact .raise _
  · rename_i m hm
    have ho : Known.Owns ((p.klass, c) :: known) c m :=
      .of_declaredMethod? List.mem_cons_self (Option.eq_some_of_filter_eq_some hm)
    have next (values : List Value) : Built e .every .call ((p.klass, c) :: known) (do
        let name := (← MonadState.get).name
        Exec.note (.entering name m.ref)
        Exec.enterMethod e c m values) :=
      .bind .get fun t => .bind (.note rfl) fun _ => .enter values ho rfl
    dsimp only
    split
    · exact .bind (.pure []) next
    · exact .bind (.newStringArray _) fun o => .bind (.pure _) next

end Calls

section Throwing

theorem callHandler (c : ClassName) (m : MemberName) (o : ObjectId) :
    Built e .every r known (Exec.callHandler e c m o) := by
  refine .loadClass_bind fun c => ?_
  refine .bind (.setUp List.mem_cons_self (Realm.every_setsUp _)) fun _ => ?_
  split
  · exact .fail _
  · rename_i m hm
    have ho := Option.eq_some_of_filter_eq_some hm
    refine .bind (.invoke _ (.of_declaredMethod? List.mem_cons_self ho) ?_) fun _ => .pure ()
    exact Realm.every_calls _ _ _

theorem runHandler (o : ObjectId) : Built e .every .host known (Exec.runHandler e o) := by
  refine .bind (.read _) fun hook => ?_
  split
  · exact .pure ()
  · rename_i c m
    refine .bind .get fun t => ?_
    split
    · exact .pure ()
    · have handling (b : Bool) (t : Thread) : t.Alike { t with inHandler := b } :=
        ⟨⟨⟨rfl, rfl, rfl⟩, rfl⟩, rfl⟩
      refine .bind (.modify (handling true)) fun _ => .recover (.callHandler c m o) ?_ ?_ ?_
      · exact fun _ => .bind (.modify (handling false)) fun _ => .pure ()
      · intro trap ht
        refine .bind (.modify (handling false)) fun _ => ?_
        cases trap with
        | throw o => exact .note rfl
        | raise cause => exact .note rfl
        | fatal fault => cases ht
        | exit => cases ht
      · intro trap ht
        refine ⟨fun t => { t with inHandler := false }, handling false, ?_⟩
        cases trap with
        | throw o => cases ht
        | raise cause => cases ht
        | fatal fault => rfl
        | exit => rfl

theorem thrown (trap : Trap) : Built e z .host known (Exec.handleTrap.thrown e trap) := by
  cases trap with
  | throw o => exact .pure o
  | raise cause =>
    refine .recover (.materialize cause) (fun o => .pure o) ?_ ?_
    · intro trap ht
      cases trap with
      | throw o => exact .pure o
      | raise cause => exact .throw _
      | fatal fault => cases ht
      | exit => cases ht
    · intro trap ht
      refine ⟨id, .refl, ?_⟩
      cases trap with
      | throw o => cases ht
      | raise cause => cases ht
      | fatal fault => rfl
      | exit => rfl
  | fatal fault => exact .throw _
  | exit => exact .throw _

end Throwing

end Built

inductive Storing (e : Engine) : Reach → {α : Type} → Exec α → Prop where
  | built {r : Reach} {α : Type} {x : Exec α} (h : Built e .every r [] x) : Storing e r x
  | bind {r : Reach} {α β : Type} {x : Exec α} {f : α → Exec β} (hx : Storing e r.before x)
      (hf : ∀ a, Storing e r (f a)) : Storing e r (x >>= f)
  | store {r : Reach} (f : Field) (v : Value) : Storing e r (setStatic f v)

namespace Storing

variable {e : Engine}

theorem seed (fields : List Field) : Storing e .host (Exec.seed e fields) := by
  induction fields with
  | nil => exact .built (.pure ())
  | cons f rest ih =>
    unfold Exec.seed
    dsimp only
    split
    · exact .bind (.built (.firstValue f)) fun v => .bind (.store f v) fun _ => ih
    · exact ih

theorem execute (i : Instruction) : Storing e .call (Exec.execute e i) := by
  rcases Built.execute i with ⟨ref, rfl⟩ | h
  · change Storing e .call (putStatic e ref)
    rw [putStatic_eq]
    exact .bind (.built (.readyStatic ref)) fun a => .store a.1 a.2
  · exact .built h

end Storing

inductive Reporting (e : Engine) : {α : Type} → Exec α → Prop where
  | built {α : Type} {x : Exec α} (h : Built e .every .host [] x) : Reporting e x
  | bind {α β : Type} {x : Exec α} {f : α → Exec β} (hx : Reporting e x)
      (hf : ∀ a, Reporting e (f a)) : Reporting e (x >>= f)
  | forget : Reporting e (modify fun t => { t with unwound := [] } : Exec PUnit)
  | blame (o : ObjectId) : Reporting e (modify fun t => { t with uncaught := some o } : Exec PUnit)

namespace Reporting

variable {e : Engine}

-- The class of the object is known before anything is done with it.
theorem exists_uncaught (o : ObjectId) : ∃ f : Class → Exec Unit,
    Exec.uncaught e o = (do let c ← Exec.classOf o; f c) ∧ ∀ c, Reporting e (f c) := by
  refine ⟨_, rfl, fun c => .bind (.built (.throwableMessage? o)) fun message => ?_⟩
  refine .bind (.built .get) fun t => .bind (.built (.note rfl)) fun _ => ?_
  refine .bind (.built (.runHandler o)) fun _ => .bind (.built .get) fun t => .bind .forget fun _ => ?_
  exact .bind (.built (.writeReport _ _)) fun _ => .blame o

theorem uncaught (o : ObjectId) : Reporting e (Exec.uncaught e o) := by
  obtain ⟨f, hf, h⟩ := exists_uncaught (e := e) o
  rw [hf]
  exact .bind (.built (.classOf o)) h

theorem settle_error (trap : Trap) :
    Exec.settle e (.error trap) = (do let o ← handleTrap.thrown e trap; Exec.uncaught e o) := by
  cases trap with
  | throw o => rfl
  | fatal fault => rfl
  | exit => rfl
  | raise cause =>
    simp only [Exec.settle, handleTrap.thrown, bind_assoc]
    refine bind_congr fun r => ?_
    rcases r with (_ | _ | _ | _) | o <;> rfl

theorem settle (outcome : Except Trap Unit) : Reporting e (Exec.settle e outcome) := by
  cases outcome with
  | ok a => exact .built (.pure a)
  | error trap =>
    rw [settle_error]
    exact .bind (.built (.thrown trap)) fun o => .uncaught o

end Reporting

end BytecodeMachine.Exec
