import BytecodeMachine.Exec.Run
import BytecodeMachine.Proofs.Typing.Natives

namespace BytecodeMachine.Exec

variable {α : Type} {e : Engine}

namespace Lawful

theorem checkFinalWrite (f : Field) (initializer : MemberName) :
    Lawful (Exec.checkFinalWrite f initializer) := by
  refine get.bind fun t => ?_
  dsimp only
  split
  · exact raise _
  · exact pure ()

theorem asInts (vs : List Value) : Lawful (Exec.asInts vs) := by
  induction vs with
  | nil => exact pure []
  | cons v rest ih => exact (ofExcept _).bind fun n => ih.bind fun ns => pure _

end Lawful

namespace Acts

variable {m : Machine} {c : Class} {f : Field}

theorem setUpAll (he : e.Lawful) {cs : List Class} (h : ∀ c ∈ cs, m.Has c) :
    Acts m (Exec.setUpAll e cs) fun _ _ => True := by
  induction cs generalizing m with
  | nil => exact Lawful.pure () m
  | cons c rest ih =>
    refine (he.setUp m c (h c List.mem_cons_self)).bind fun _ m1 hg _ => ?_
    exact ih fun d hd => hg.has (h d (List.mem_cons_of_mem c hd))

theorem firstValue (he : e.Lawful) (f : Field) :
    Acts m (Exec.firstValue e f) fun v _ => Machine.Suits f v := by
  unfold Exec.firstValue
  split
  · rename_i text ht
    exact (Lawful.intern he text m).bind fun o _ _ _ => pure fun _ _ => .inr ⟨⟨text, ht⟩, rfl⟩
  · refine pure fun _ _ => .inl ?_
    split
    · assumption
    · exact Value.fits_default _
  · exact pure fun _ _ => .inl (Value.fits_default _)

theorem seed (he : e.Lawful) (hc : m.Has c) {fields : List Field} (hf : fields ⊆ c.fields) :
    Acts m (Exec.seed e fields) fun _ _ => True := by
  induction fields generalizing m with
  | nil => exact Lawful.pure () m
  | cons f rest ih =>
    obtain ⟨hmem, hrest⟩ := List.cons_subset.1 hf
    unfold Exec.seed
    dsimp only
    split
    · rename_i hs
      refine (firstValue he f).bind fun v m1 hg1 hv => ?_
      refine (setStatic (hg1.has hc) hmem hs hv).bind fun _ m2 hg2 _ => ?_
      exact ih ((hg1.trans hg2).has hc) hrest
    · exact ih hc hrest

theorem runSetup (he : e.Lawful) (hc : m.Has c) :
    Acts m (Exec.runSetup e c) fun _ _ => True := by
  have hseed : Acts m (Exec.seed e c.fields) fun _ m' =>
      ∀ d ∈ c.superclass.toList ++ c.interfaces, m'.Has d := by
    refine (seed he hc (List.Subset.refl _)).mono fun _ m' hg hs _ d hd => ?_
    exact hs.closed.above (hg.has hc) hd
  refine hseed.bind fun _ m1 _ ha => (setUpAll he ha).bind fun _ m2 _ _ => ?_
  split
  · exact Lawful.pure () m2
  · refine (Lawful.pass _ m2).bind fun _ m3 _ _ => ?_
    exact ((Lawful.invokeMethod he c _ []).bind fun _ => .pure ()) m3

theorem setUpOnce (he : e.Lawful) (hc : m.Has c) :
    Acts m (Exec.setUpOnce e c) fun _ _ => True := by
  have after (r : Except Trap Unit) : Lawful (do
      if !r.isOk then
        Exec.pass (.setUpFailed c.name)
      Exec.update (·.setInitState c.name .initialized)
      Exec.note (.initialized c.name)
      Exec.ofTrap r) := by
    refine .check (.pass _) fun _ => .bind (.update fun m => ?_) ?_
    · exact Machine.rests_setInitState _ _ m
    · exact fun _ => (Lawful.note _).bind fun _ => .ofTrap r
  refine (Lawful.note _ m).bind fun _ m1 hg1 _ => ?_
  refine (Lawful.update (Machine.rests_setInitState _ _) m1).bind fun _ m2 hg2 _ => ?_
  refine (runSetup he ((hg1.trans hg2).has hc)).attempt_bind ?_ ?_
  · exact fun a m3 _ _ => after _ m3
  · exact fun trap m3 _ => after _ m3

theorem setUp (he : e.Lawful) (hc : m.Has c) : Acts m (Exec.setUp e c) fun _ _ => True := by
  have body : Acts m (do
      if (← Exec.read (·.initState c.name)) ≠ .initialized then
        Exec.locked do
          if (← Exec.read (·.initState c.name)) = .uninitialized then
            Exec.setUpOnce e c) fun _ _ => True := by
    refine (read _).bind fun s m1 hg1 _ => ?_
    split
    · refine locked ((read _).bind fun s m2 hg2 _ => ?_) fun _ _ _ _ _ => trivial
      split
      · exact setUpOnce he ((hg1.trans hg2).has hc)
      · exact Lawful.pure () m2
    · exact Lawful.pure () m1
  refine body.attempt_bind (fun a m1 _ _ => ?_) fun trap m1 _ => ?_
  · exact (Lawful.pass _ m1).bind fun _ m2 _ _ => Lawful.ofTrap _ m2
  · exact (Lawful.pass _ m1).bind fun _ m2 _ _ => Lawful.ofTrap _ m2

theorem checkStored (f : Field) (v : Value) :
    Acts m (Exec.checkStored f v) fun _ _ => v.fits f.type = true := by
  unfold Exec.checkStored
  split
  · exact pure fun _ _ => ‹_›
  · exact fail _

theorem putField (ref : FieldRef) : Acts m (Exec.putField ref) fun _ _ => True := by
  have hfield : Acts m (Exec.resolveField ref) fun a m' => m'.Has a.1 ∧ a.2 ∈ a.1.fields ∧
      (a.2.isStatic = false → ∃ k, a.2.slot = some k) := by
    refine (resolveField ref).mono fun a m' _ hs ha => ⟨ha.1, ha.2.1, fun hn => ?_⟩
    obtain ⟨k, hk, -⟩ := (hs.closed.placed ha.1).place a.2 ha.2.1 hn
    exact ⟨k, hk⟩
  refine hfield.bind fun ⟨c, f⟩ m1 _ ⟨hc, hf, hslot⟩ => guard (fun _ => raise _) fun hn => ?_
  obtain ⟨k, hk⟩ := hslot (by simpa using hn)
  refine (Lawful.checkFinalWrite _ _ m1).bind fun _ m2 hg2 _ => ?_
  refine (Lawful.inFrame _ m2).bind fun v m3 hg3 _ => ?_
  refine (Lawful.inFrame _ m3).bind fun o m4 hg4 _ => (classOf o).bind fun d m5 hg5 ho => ?_
  refine guard (fun _ => fail _) fun ha => (checkStored f v).bind fun _ m6 hg6 hv => ?_
  rw [hk]
  have hg := (((hg2.trans hg3).trans hg4).trans hg5).trans hg6
  exact setField (hg6.isA ho.1) (hg.has hc) hf hk (by simpa using ha) hv

theorem checkElement {array : Object} (element : Option ObjectId) :
    Acts m (Exec.checkElement array element) fun _ m' => ∀ o k, element = some o →
      array.klass.component = some k → m'.fitsComponent k o = true := by
  unfold Exec.checkElement
  split
  · rename_i o k hk
    refine (classOf o).bind fun found m1 _ ho => ?_
    split
    · exact raise _
    · rename_i ha
      refine pure fun m2 hg p j hp hj => ?_
      cases hp
      cases hk.symm.trans hj
      exact hg.fits (ho.1.fits (by simpa using ha))
  · rename_i hnone
    exact pure fun m2 _ o k ho hk => (hnone o k ho hk).elim

theorem expectElements (i : Instruction) (k : ElementKind) (s : ArrayStorage) :
    Acts m (Exec.expectElements i k s) fun _ _ => s.kind = k := by
  unfold Exec.expectElements
  split
  · exact pure fun _ _ => ‹_›
  · exact fail _

theorem storage (o : ObjectId) :
    Acts m (Exec.storage o) fun s m' => ∃ x, m'.Seen o x ∧ x.body = .array s := by
  refine (object o).bind fun x m1 _ hx => ofExcept fun s m2 hs hg => ⟨x, hg.seen hx, ?_⟩
  unfold Object.storage at hs
  split at hs
  · rename_i hb
    cases hs
    exact hb
  · cases hs

theorem storeReference : Acts m Exec.storeReference fun _ _ => True := by
  have harray (o : ObjectId) {m : Machine} : Acts m (Exec.object o) fun x m' => m'.Seen o x ∧
      (x.body.shape.1 = some .reference → ∃ k, x.klass.component = some k) := by
    refine (object o).mono fun x m' _ hs hx => ⟨hx, fun hk => ?_⟩
    cases hb : x.body with
    | fields values =>
      rw [hb] at hk
      cases hk
    | array s =>
      rw [hb] at hk
      exact hs.component_of_reference hx.known (hx.holds s hb) (Option.some.inj hk)
  refine (Lawful.inFrame _ m).bind fun element m1 _ _ => ?_
  refine (Lawful.inFrame _ m1).bind fun index m2 _ _ => ?_
  refine (Lawful.inFrame _ m2).bind fun o m3 _ _ => (harray o).bind fun x m4 _ hx => ?_
  refine (Lawful.ofExcept _ m4).bind fun s m5 hg5 _ => ?_
  refine (expectElements _ _ _).bind fun _ m6 hg6 _ => (Lawful.ofTrap _ m6).bind fun _ m7 hg7 _ => ?_
  refine (checkElement element).bind fun _ m8 hg8 hfits => storeElement ?_ _
  obtain ⟨y, hy, hk, hb⟩ := ((((hg5.trans hg6).trans hg7).trans hg8).seen hx.1).shows
  refine ⟨y, hy, fun href p hp => ?_⟩
  obtain ⟨k, hc⟩ := hx.2 (hb ▸ href)
  exact ⟨k, hk ▸ hc, hfits p k (Value.ref.inj hp) hc⟩

theorem arrayStore (k : ElementKind) : Acts m (Exec.arrayStore k) fun _ _ => True := by
  unfold Exec.arrayStore
  split
  · exact storeReference
  · rename_i hne
    refine (Lawful.inFrame _ m).bind fun v m1 _ _ => (Lawful.inFrame _ m1).bind fun index m2 _ _ => ?_
    refine (Lawful.inFrame _ m2).bind fun o m3 _ _ => (storage o).bind fun s m4 _ ⟨x, hx, hb⟩ => ?_
    refine (expectElements _ _ _).bind fun _ m5 hg5 hk => storeElement ?_ _
    obtain ⟨y, hy, -, hshape⟩ := (hg5.seen hx).shows
    refine ⟨y, hy, fun href => ?_⟩
    rw [hshape, hb] at href
    exact absurd (hk.symm.trans (Option.some.inj href)) hne

theorem getStatic (he : e.Lawful) (ref : FieldRef) :
    Acts m (Exec.getStatic e ref) fun _ _ => True := by
  refine (resolveField ref).bind fun ⟨c, f⟩ m1 _ hc => guard (fun _ => raise _) fun _ => ?_
  refine (he.setUp m1 c hc.1).bind fun _ m2 _ _ => ?_
  exact ((Lawful.static f).bind fun v => .push v) m2

theorem putStatic (he : e.Lawful) (ref : FieldRef) :
    Acts m (Exec.putStatic e ref) fun _ _ => True := by
  refine (resolveField ref).bind fun ⟨c, f⟩ m1 _ hc => guard (fun _ => raise _) fun hs => ?_
  refine (Lawful.checkFinalWrite _ _ m1).bind fun _ m2 hg2 _ => ?_
  refine (he.setUp m2 c (hg2.has hc.1)).bind fun _ m3 hg3 _ => ?_
  refine (Lawful.inFrame _ m3).bind fun v m4 hg4 _ => (checkStored f v).bind fun _ m5 hg5 hv => ?_
  have hg := ((hg2.trans hg3).trans hg4).trans hg5
  exact setStatic (hg.has hc.1) hc.2.1 (by simpa using hs) (.inl hv)

theorem newInstance (he : e.Lawful) (n : ClassName) :
    Acts m (Exec.newInstance e n) fun _ _ => True := by
  refine (resolveClass n).bind fun c m1 _ hc => ?_
  exact (allocateInstance he hc).bind fun o m2 _ _ => Lawful.push _ m2

theorem invokeStatic (he : e.Lawful) {owner : Class} (hc : m.Has owner) (f : Method) :
    Acts m (Exec.invokeStatic e owner f) fun _ _ => True := by
  unfold Exec.invokeStatic
  refine guard (fun _ => raise _) fun _ => (he.setUp m owner hc).bind fun _ m1 _ _ => ?_
  exact ((Lawful.inFrame _).bind fun arguments => .enterMethod he owner f arguments) m1

theorem newPrimitiveArray (b : BaseType) :
    Acts m (Exec.newPrimitiveArray b) fun _ _ => True := by
  refine (Lawful.inFrame _ m).bind fun count m1 _ _ => guard (fun _ => raise _) fun _ => ?_
  refine (arrayClass _).bind fun c m2 _ hc => (newArray hc.1 _).bind fun o m3 _ _ => ?_
  exact Lawful.push _ m3

theorem newReferenceArray (n : ClassName) :
    Acts m (Exec.newReferenceArray n) fun _ _ => True := by
  refine (Lawful.inFrame _ m).bind fun count m1 _ _ => (resolveClass n).bind fun d m2 _ _ => ?_
  refine guard (fun _ => raise _) fun _ => ?_
  split
  · exact fail _
  · refine (arrayClass _).bind fun c m3 _ hc => (newArray hc.1 _).bind fun o m4 _ _ => ?_
    exact Lawful.push _ m4

theorem newMultiArray (n : ClassName) (dimensions : Nat) :
    Acts m (Exec.newMultiArray n dimensions) fun _ _ => True := by
  refine (resolveClass n).bind fun c m1 _ hc => guard (fun _ => fail _) fun _ => ?_
  refine (Lawful.inFrame _ m1).bind fun vs m2 hg2 _ => ?_
  refine (Lawful.asInts vs m2).bind fun counts m3 hg3 _ => ?_
  split
  · exact raise _
  · split
    · exact fail _
    · refine (newDimensions ((hg2.trans hg3).has hc) _ _).bind fun o m4 _ _ => ?_
      exact Lawful.push _ m4

end Acts

namespace Lawful

theorem arrayLoad (k : ElementKind) : Lawful (Exec.arrayLoad k) := by
  refine (inFrame _).bind fun index => (inFrame _).bind fun o => (storage o).bind fun s => ?_
  exact bind (fun _ => mono (.expectElements _ k s)) fun _ => (ofTrap _).bind fun v => push v

theorem arrayLength : Lawful Exec.arrayLength :=
  (inFrame _).bind fun o => (storage o).bind fun _ => push _

theorem getField (ref : FieldRef) : Lawful (Exec.getField ref) := by
  refine bind (fun _ => mono (.resolveField ref)) fun ⟨c, f⟩ => .check (raise _) fun _ => ?_
  refine (inFrame _).bind fun o => (classOf o).bind fun found => .check (fail _) fun _ => ?_
  exact (field o _).bind fun v => push v

theorem loadConstant (he : e.Lawful) (c : Constant) : Lawful (Exec.loadConstant e c) := by
  cases c with
  | numeral n => exact push _
  | string text => exact (intern he text).bind fun o => push _
  | klass n =>
    exact (resolveClass n).bind fun c => (classObject he c.name).bind fun o => push _

theorem topReference : Lawful Exec.topReference := by
  refine (inFrame _).bind fun top => ?_
  split
  · exact pure _
  · exact fail _
  · exact fail _

theorem checkCast (n : ClassName) : Lawful (Exec.checkCast n) := by
  refine (resolveClass n).bind fun c => topReference.bind fun top => ?_
  cases top with
  | none => exact pure ()
  | some o =>
    refine (classOf o).bind fun found => ?_
    split
    · exact raise _
    · exact pure ()

theorem instanceOf (n : ClassName) : Lawful (Exec.instanceOf n) := by
  refine (resolveClass n).bind fun c => (inFrame _).bind fun top => ?_
  cases top with
  | none => exact push _
  | some o => exact (classOf o).bind fun found => push _

theorem receiverOf (m : Method) (arguments : List Value) :
    Lawful (Exec.receiverOf m arguments) := by
  unfold Exec.receiverOf
  split
  · exact pure _
  · exact raise _
  · exact fail _

theorem specialTarget (ref : MethodRef) (owner : Class) (m : Method) :
    Lawful (Exec.specialTarget ref owner m) := by
  refine get.bind fun t => ?_
  split
  · exact pure _
  · split
    · exact pure _
    · refine (loadClass _).bind fun named => ?_
      split
      · exact pure _
      · split
        · exact raise _
        · exact (loadClass _).bind fun owner => pure _

theorem invokeSpecial (he : e.Lawful) (ref : MethodRef) (owner : Class) (m : Method) :
    Lawful (Exec.invokeSpecial e ref owner m) := by
  refine .check (raise _) fun _ => (specialTarget ref owner m).bind fun ⟨c, target⟩ => ?_
  refine (inFrame _).bind fun arguments => (receiverOf _ _).bind fun _ => ?_
  exact .check (raise _) fun _ => enterMethod he _ _ _

theorem enterDynamic (he : e.Lawful) (ref : MethodRef) (m : Method) (runtime : Class)
    (arguments : List Value) :
    Lawful (match dynamicTarget? ref m runtime with
      | none => Exec.raise (.bodilessOn ref runtime.name)
      | some target => do
          if target.isStatic then
            Exec.raise (.methodStatic target.ref)
          let c ← Exec.loadClass target.owner
          Exec.enterMethod e c target arguments) := by
  split
  · exact raise _
  · exact .check (raise _) fun _ => (loadClass _).bind fun c => enterMethod he c _ arguments

theorem invokeDynamic (he : e.Lawful) (isInterface : Bool) (ref : MethodRef) (m : Method) :
    Lawful (Exec.invokeDynamic e isInterface ref m) := by
  refine (inFrame _).bind fun arguments => (receiverOf _ _).bind fun o => ?_
  refine (classOf o).bind fun runtime => ?_
  dsimp only
  split
  · refine (loadClass _).bind fun interface => ?_
    split
    · exact (raise _).bind fun _ => enterDynamic he ref m runtime arguments
    · exact enterDynamic he ref m runtime arguments
  · exact enterDynamic he ref m runtime arguments

theorem invokeBy (he : e.Lawful) (k : InvokeKind) (ref : MethodRef) :
    Lawful (Exec.invoke e k ref) := by
  intro m
  refine (Acts.resolveMethod ref).bind fun ⟨owner, f⟩ m1 _ hc => ?_
  cases k with
  | static => exact .invokeStatic he hc f
  | special => exact invokeSpecial he ref owner f m1
  | virtual => exact invokeDynamic he false ref f m1
  | interface => exact invokeDynamic he true ref f m1

theorem deliver (v : Option Value) (frames : List Frame) :
    Lawful (match v, frames with
      | some v, _ :: _ => Exec.push v
      | _, _ => Pure.pure () : Exec Unit) := by
  split
  · exact push _
  · exact pure ()

theorem returnFrom (hasValue : Bool) : Lawful (Exec.returnFrom hasValue) := by
  refine get.bind fun t => ?_
  rcases t.frames with _ | ⟨f, rest⟩
  · exact fail _
  · refine (modify _).bind fun _ => ?_
    dsimp only
    generalize (if hasValue = true then f.stack.head? else none) = v
    split
    · exact fail _
    · split
      · split
        · exact fail _
        · exact deliver v rest
      · exact deliver v rest

theorem execute (he : e.Lawful) (i : Instruction) : Lawful (Exec.execute e i) := by
  cases i with
  | nop => exact pure ()
  | nullConst => exact push _
  | const n => exact push _
  | ldc c => exact loadConstant he c
  | arrayLoad k => exact arrayLoad k
  | arrayStore k => exact fun _ => .arrayStore k
  | returnValue k => exact returnFrom true
  | returnVoid => exact returnFrom false
  | getStatic f => exact fun _ => .getStatic he f
  | putStatic f => exact fun _ => .putStatic he f
  | getField f => exact getField f
  | putField f => exact fun _ => .putField f
  | invoke k m => exact invokeBy he k m
  | new n => exact fun _ => .newInstance he n
  | newArray b => exact fun _ => .newPrimitiveArray b
  | newReferenceArray n => exact fun _ => .newReferenceArray n
  | newMultiArray n dimensions => exact fun _ => .newMultiArray n dimensions
  | arrayLength => exact arrayLength
  | throw => exact (inFrame _).bind fun o => throw _
  | checkCast n => exact checkCast n
  | instanceOf n => exact instanceOf n
  | monitorEnter =>
    refine (inFrame _).bind fun o => get.bind fun t => ?_
    exact (lift (Prog.isRestful_enterMonitor _ o)).bind fun outcome => ofTrap outcome
  | monitorExit =>
    refine (inFrame _).bind fun o => get.bind fun t => ?_
    exact (lift (Prog.isRestful_exitMonitor _ o true)).bind fun outcome => ofTrap outcome
  | load k slot => exact inFrame (.loadLocal k slot)
  | store k slot => exact inFrame (.storeLocal k slot)
  | shuffle s => exact inFrame (.shuffle s)
  | arithmetic op n => exact inFrame (.arithmetic op n)
  | negate n => exact inFrame (.negate n)
  | shift s w => exact inFrame (.shift s w)
  | bitwise op w => exact inFrame (.bitwise op w)
  | increment slot delta => exact inFrame (.increment slot delta)
  | convert c => exact inFrame (.convert c)
  | compareLong => exact inFrame .compareLong
  | compareFloat p => exact inFrame (.compareFloat p)
  | compareDouble p => exact inFrame (.compareDouble p)
  | ifZero c target => exact inFrame (.ifZero c target)
  | ifInts c target => exact inFrame (.ifInts c target)
  | ifSame t target => exact inFrame (.ifSame t target)
  | ifNull t target => exact inFrame (.ifNull t target)
  | goto target => exact inFrame (.jump target)
  | tableSwitch default low targets => exact inFrame (.tableSwitch default low targets)
  | lookupSwitch default targets => exact inFrame (.lookupSwitch default targets)

end Lawful

end BytecodeMachine.Exec
