import BytecodeMachine.Proofs.Typing.Host

namespace BytecodeMachine.Exec

variable {α : Type} {e : Engine}

theorem add_le_of_inRange {position length : Int32} {size : Nat}
    (h : inRange position length size = true) (hl : ¬length < 0) :
    position.toInt.toNat + length.toInt.toNat ≤ size := by
  have h0 : 0 ≤ length.toInt := by simpa [Int32.lt_iff_toInt_lt] using hl
  simp only [inRange, Bool.and_eq_true, decide_eq_true_eq] at h
  omega

namespace Acts

variable {m : Machine}

theorem box (he : e.Lawful) {n : ClassName} (hn : CoreLibrary.Has n) (v : Value) :
    Acts m (Exec.box e n v) fun _ _ => True := by
  have hload : Acts m (Exec.loadClass n) fun c m' => m'.Has c ∧
      ∀ f ∈ c.fields, ∃ k, f.slot = some k := by
    refine (loadClass n).mono fun c m' _ hs hc => ⟨hc.2, fun f hf => ?_⟩
    obtain ⟨rest, hl⟩ := hs.libraries
    exact CoreLibrary.exists_slot (hl ▸ hs.closed) hc.1 hn hf
  refine hload.bind fun c m1 _ hc => (he.setUp m1 c hc.1).bind fun _ m2 hg2 _ => ?_
  split
  · exact fail _
  · rename_i f hf
    have hmem := List.mem_of_find?_eq_some hf
    obtain ⟨k, hk⟩ := hc.2 f hmem
    refine guard (fun _ => fail _) fun hv => ?_
    refine (newObject (hg2.has hc.1)).bind fun o m3 hg3 ho => ?_
    rw [hk]
    refine (setField ho (hg3.has (hg2.has hc.1)) hmem hk c.isAssignable_self ?_).bind ?_
    · simpa using hv
    · exact fun _ m4 _ _ => Lawful.pure o m4

theorem copyRange {source dest : ObjectId} {x y : Object} {s d : ArrayStorage}
    {start place count : Nat} (hx : m.Seen source x) (hy : m.Seen dest y) (hs : x.body = .array s)
    (hd : y.body = .array d) (hfrom : start + count ≤ s.length) (hto : place + count ≤ d.length) :
    Acts m (Exec.act (·.copyRange (source = dest) s dest start place count)) fun _ _ => True := by
  have hsame (h : decide (source = dest) = true) : s.length = d.length := by
    obtain ⟨z, hz, -, hzs⟩ := hx.shows
    obtain ⟨z', hz', -, hzd⟩ := hy.shows
    rw [of_decide_eq_true h] at hz
    cases hz.symm.trans hz'
    have := hzs.symm.trans hzd
    rw [hs, hd] at this
    exact congrArg Prod.snd this
  exact act fun m' hg hm => ⟨(hg.seen hy).deed_copyRange hm hd hfrom hto hsame, trivial⟩

theorem copyArray (source : ObjectId) (sourcePosition : Int32) (dest : ObjectId)
    (destPosition length : Int32) :
    Acts m (Exec.copyArray source sourcePosition dest destPosition length) fun _ _ => True := by
  refine (object source).bind fun x m1 _ hx => (object dest).bind fun y m2 hg2 hy => ?_
  split
  · rename_i s d hs hd
    refine guard (fun _ => raise _) fun hb => ?_
    simp only [Bool.or_eq_true, decide_eq_true_eq, Bool.not_eq_true', not_or,
      Bool.not_eq_false] at hb
    split
    · exact (copyRange (hg2.seen hx) hy hs hd (add_le_of_inRange hb.1.2 hb.1.1)
        (add_le_of_inRange hb.2 hb.1.1)).bind fun r m3 _ _ => Lawful.ofTrap r m3
    · exact Lawful.pure () m2
  · exact raise _

end Acts

namespace Lawful

section Values

theorem refuseShape (v : NativeValue) (expected : String) :
    Lawful (Exec.refuseShape v expected : Exec α) :=
  (read _).bind fun _ => fail _

theorem nativeInt (v : NativeValue) : Lawful (Exec.nativeInt v) := by
  cases v with
  | int n => exact pure n
  | _ => exact refuseShape _ _

theorem nativeLong (v : NativeValue) : Lawful (Exec.nativeLong v) := by
  cases v with
  | long n => exact pure n
  | _ => exact refuseShape _ _

theorem nativeFloat (v : NativeValue) : Lawful (Exec.nativeFloat v) := by
  cases v with
  | float x => exact pure x
  | _ => exact refuseShape _ _

theorem nativeDouble (v : NativeValue) : Lawful (Exec.nativeDouble v) := by
  cases v with
  | double x => exact pure x
  | _ => exact refuseShape _ _

theorem nativeObject (v : NativeValue) : Lawful (Exec.nativeObject v) := by
  cases v with
  | object o => exact pure (some o)
  | null => exact pure none
  | _ => exact refuseShape _ _

theorem nativeString (v : NativeValue) : Lawful (Exec.nativeString v) := by
  cases v with
  | string s => exact pure (some s)
  | null => exact pure none
  | _ => exact refuseShape _ _

theorem argument (arguments : List NativeValue) (index : Nat) :
    Lawful (Exec.argument arguments index) := by
  unfold Exec.argument
  split
  · exact pure _
  · exact fail _

theorem intArgument (arguments : List NativeValue) (index : Nat) :
    Lawful (Exec.intArgument arguments index) :=
  (argument arguments index).bind nativeInt

theorem longArgument (arguments : List NativeValue) (index : Nat) :
    Lawful (Exec.longArgument arguments index) :=
  (argument arguments index).bind nativeLong

theorem referenceArgument (arguments : List NativeValue) (index : Nat) :
    Lawful (Exec.referenceArgument arguments index) :=
  (argument arguments index).bind nativeObject

theorem objectArgument (arguments : List NativeValue) (index : Nat) (context : String) :
    Lawful (Exec.objectArgument arguments index context) := by
  refine (referenceArgument arguments index).bind fun found => ?_
  cases found with
  | some o => exact pure o
  | none => exact raise _

theorem stringArgument (arguments : List NativeValue) (index : Nat) (missing : Cause) :
    Lawful (Exec.stringArgument arguments index missing) := by
  refine (argument arguments index).bind fun v => (nativeString v).bind fun found => ?_
  cases found with
  | some s => exact pure s
  | none => exact raise _

theorem refuseCrossing (shown : Machine → String) (t : FieldType) :
    Lawful (Exec.refuseCrossing shown t : Exec α) :=
  (read _).bind fun _ => fail _

theorem hostStrings (refs : List (Option ObjectId)) : Lawful (Exec.hostStrings refs) := by
  induction refs with
  | nil => exact pure []
  | cons o rest ih =>
    cases o with
    | none => exact ih.bind fun texts => pure _
    | some o => exact (stringValue o).bind fun text => ih.bind fun texts => pure _

theorem arrayToNative (o : ObjectId) (component : FieldType) :
    Lawful (Exec.arrayToNative o component) := by
  refine (storage o).bind fun s => ?_
  split
  · split
    · exact pure _
    · exact refuseCrossing _ _
  · split
    · split
      · exact pure _
      · exact refuseCrossing _ _
    · split
      · split
        · exact (hostStrings _).bind fun texts => pure _
        · exact refuseCrossing _ _
      · exact pure _

theorem objectToNative (o : ObjectId) (n : ClassName) : Lawful (Exec.objectToNative o n) := by
  unfold Exec.objectToNative
  split
  · exact (stringValue o).bind fun s => pure _
  · split
    · refine (classNameOf? o).bind fun found => ?_
      cases found with
      | some name => exact pure _
      | none => exact refuseCrossing _ _
    · split
      · refine (classOf o).bind fun c => ?_
        split
        · exact refuseCrossing _ _
        · exact ((read _).bind fun _ => ofExcept _).bind fun v => pure _
      · exact pure _

theorem toNative (v : Value) (t : FieldType) : Lawful (Exec.toNative v t) := by
  unfold Exec.toNative
  split
  · split
    · exact pure _
    · exact refuseCrossing _ _
  · exact pure _
  · exact objectToNative _ _
  · exact arrayToNative _ _
  · exact refuseCrossing _ _

theorem ofNativeBase (v : NativeValue) (b : BaseType) : Lawful (Exec.ofNativeBase v b) := by
  unfold Exec.ofNativeBase
  split
  · exact pure _
  · exact pure _
  · exact pure _
  · split
    · exact pure _
    · exact refuseCrossing _ _
  · exact refuseCrossing _ _

end Values

section Crossing

variable (he : e.Lawful)

include he

theorem boxed (v : NativeValue) (t : FieldType) :
    Lawful (Exec.ofNativeReference.boxed e v t) := by
  unfold Exec.ofNativeReference.boxed
  split
  · split
    · rename_i hb
      have hn := CoreLibrary.has_of_boxed (by rw [hb]; rfl)
      exact (ofNativeBase _ _).bind fun v m => (Acts.box he hn v).bind fun o m1 _ _ => pure _ m1
    · exact refuseCrossing _ _
  · exact refuseCrossing _ _

theorem ofNativeReference (v : NativeValue) (t : FieldType) :
    Lawful (Exec.ofNativeReference e v t) := by
  unfold Exec.ofNativeReference
  cases v with
  | null => exact pure _
  | object o => exact pure _
  | string s =>
    dsimp only
    split
    · exact (newString he s).bind fun o => pure _
    · exact boxed he _ t
  | klass n =>
    dsimp only
    split
    · exact (classObject he n).bind fun o => pure _
    · exact boxed he _ t
  | chars units =>
    dsimp only
    split
    · exact bind (fun _ => .arrayOf rfl (by decide)) fun o => pure _
    · exact boxed he _ t
  | ints ns =>
    dsimp only
    split
    · exact bind (fun _ => .arrayOf rfl (by decide)) fun o => pure _
    · exact boxed he _ t
  | strings texts =>
    dsimp only
    split
    · exact bind (fun _ => .newStringArray he texts) fun o => pure _
    · exact boxed he _ t
  | _ => exact boxed he _ t

theorem ofNative (v : NativeValue) (t : FieldType) : Lawful (Exec.ofNative e v t) := by
  unfold Exec.ofNative
  split
  · exact ofNativeBase v _
  · exact ofNativeReference he v t

end Crossing

section System

theorem modifyRecord {thread : Nat} {f : ThreadRecord → ThreadRecord} :
    Lawful (Exec.update (·.modifyRecord thread f)) :=
  update fun m => Machine.rests_modifyRecord _ _ m

theorem setError (index code : Int32) : Lawful (Exec.setError index code) :=
  get.bind fun t => act fun m =>
    Machine.rests_modifyRecord t.id (·.setError (Machine.errorSlot index) code) m

theorem pointer (o : Option ObjectId) : Lawful (Exec.act (·.pointer o)) := by
  refine act fun m => ?_
  cases o with
  | none => exact .refl m
  | some o => exact ⟨rfl, .refl, rfl, fun _ => rfl⟩

theorem loadString (he : e.Lawful) (id : Int32) : Lawful (Exec.loadString e id) := by
  refine (read _).bind fun found => ?_
  cases found with
  | none => exact pure _
  | some text => exact (newString he text).bind fun o => (pointer _).bind fun n => pure _

theorem stackItem (depth item : Int32) : Lawful (Exec.stackItem depth item) := by
  unfold Exec.stackItem
  split
  · exact pure _
  · refine get.bind fun t => ?_
    split
    · exact pure _
    · refine act fun m => ?_
      unfold Machine.frameItem
      dsimp only
      repeat' split
      all_goals exact ⟨rfl, .refl, rfl, fun _ => rfl⟩

theorem writeByte (pipe byte : Int32) : Lawful (Exec.act (·.writeByte pipe byte)) := by
  refine act fun m => ?_
  unfold Machine.writeByte
  dsimp only
  repeat' split
  all_goals exact ⟨rfl, .refl, rfl, fun _ => rfl⟩

theorem exitMachine (code : Int32) : Lawful (Exec.exitMachine code) := by
  refine get.bind fun t => (note _).bind fun _ => (setError _ _).bind fun _ => ?_
  exact modifyRecord.bind fun _ => (lift (Prog.isRestful_exit code)).bind fun _ => throw _

theorem runCall (he : e.Lawful) (call : SystemCall) (arguments : List Int32) :
    Lawful (Exec.runCall e call arguments) := by
  cases call with
  | errorGet => exact get.bind fun t => (read _).bind fun n => pure _
  | errorSet => exact (setError _ _).bind fun n => pure _
  | wallMillisLow => exact (read _).bind fun n => pure _
  | wallMillisHigh => exact (read _).bind fun n => pure _
  | nanosLow => exact (read _).bind fun n => pure _
  | nanosHigh => exact (read _).bind fun n => pure _
  | memoryFree => exact (read _).bind fun n => pure _
  | memoryUsed => exact (read _).bind fun n => pure _
  | memoryMax => exact (read _).bind fun n => pure _
  | exit => exact (exitMachine _).bind fun _ => pure _
  | writeByte => exact writeByte _ _
  | loadString => exact loadString he _
  | unimplemented => exact fail _
  | stackHeight => exact get.bind fun t => pure _
  | stackItem => exact stackItem _ _
  | _ => exact pure _

theorem systemCall (he : e.Lawful) (index : Int32) (arguments : List Int32) :
    Lawful (Exec.systemCall e index arguments) := by
  unfold Exec.systemCall
  split
  · exact (note _).bind fun _ => (setError _ _).bind fun _ => pure _
  · refine (note _).bind fun _ => (runCall he _ _).bind fun result => ?_
    cases result with
    | ok n => exact (setError _ _).bind fun _ => pure _
    | error err => exact (setError _ _).bind fun _ => pure _

end System

section Monitors

theorem waitOn (o : ObjectId) (millis : Int64) (nanos : Int32) :
    Lawful (Exec.waitOn o millis nanos) := by
  refine get.bind fun t => modifyRecord.bind fun _ => ?_
  refine (lift (Prog.isRestful_waitOn _ o millis nanos)).bind fun outcome => ?_
  exact modifyRecord.bind fun _ => ofTrap outcome

theorem notify (o : ObjectId) (all : Bool) : Lawful (Exec.notify o all) :=
  get.bind fun _ => (lift (Prog.isRestful_notify _ o all)).bind fun outcome => ofTrap outcome

theorem holdsLock (thread : Int32) (o : ObjectId) : Lawful (Exec.holdsLock thread o) :=
  (read _).bind fun _ => pure _

theorem sleep (millis : Int64) : Lawful (Exec.sleep millis) := by
  refine get.bind fun t => (read _).bind fun deadline => modifyRecord.bind fun _ => ?_
  refine (await _).bind fun wake => modifyRecord.bind fun _ => ?_
  cases wake with
  | terminated => exact throw _
  | interrupted => exact raise _
  | _ => exact pure _

theorem waitOrRaise (o : ObjectId) (millis : Int64) (nanos : Int32) : Lawful (do
    match ← Exec.waitOn o millis nanos with
    | .interrupted => Exec.raise .interruptedWaiting
    | .notified | .timedOut => Pure.pure NativeValue.void) := by
  refine (waitOn o millis nanos).bind fun status => ?_
  cases status with
  | interrupted => exact raise _
  | _ => exact pure _

theorem waitFor (arguments : List NativeValue) : Lawful (Exec.waitFor arguments) := by
  refine (objectArgument _ _ _).bind fun o => (longArgument _ _).bind fun millis => ?_
  dsimp only
  split
  · exact (nativeInt _).bind fun nanos => waitOrRaise o millis nanos
  · exact (pure 0).bind fun nanos => waitOrRaise o millis nanos

theorem orNotHeld {x : Exec Int32} (hx : Lawful x) : Lawful (Exec.orNotHeld x) := by
  refine hx.attempt_bind fun r => ?_
  rcases r with trap | n
  · cases trap with
    | raise cause =>
      dsimp only
      split
      · exact pure _
      · exact raise _
    | _ => exact throw _
  · exact pure _

end Monitors

section Functions

theorem classNameText (arguments : List NativeValue) :
    Lawful (Exec.classNameText arguments) := by
  refine (objectArgument _ _ _).bind fun o => (classNameOf? o).bind fun found => ?_
  cases found with
  | some n => exact pure _
  | none => exact fail _

theorem copyArguments (arguments : List NativeValue) :
    Lawful (Exec.copyArguments arguments) := by
  refine (objectArgument _ _ _).bind fun source => (intArgument _ _).bind fun i => ?_
  refine (objectArgument _ _ _).bind fun dest => (intArgument _ _).bind fun j => ?_
  refine (intArgument _ _).bind fun length => ?_
  exact bind (fun _ => .copyArray source i dest j length) fun _ => pure _

theorem property (name : String) : Lawful (Exec.property name) := by
  refine (read _).bind fun found => ?_
  cases found with
  | some text => exact pure _
  | none => exact pure _

theorem builtin (he : e.Lawful) (b : Builtin) (arguments : List NativeValue) :
    Lawful (Exec.builtin e b arguments) := by
  cases b with
  | getClass => exact (objectArgument _ _ _).bind fun o => (classOf o).bind fun c => pure _
  | hashCode => exact (objectArgument _ _ _).bind fun o => pure _
  | notify all => exact (objectArgument _ _ _).bind fun o => (notify o all).bind fun _ => pure _
  | wait => exact waitFor arguments
  | className => exact classNameText arguments
  | intern =>
    refine (objectArgument _ _ _).bind fun o => (stringValue o).bind fun text => ?_
    exact (intern he text).bind fun o => pure _
  | copyArray => exact copyArguments arguments
  | currentTimeMillis => exact (read _).bind fun n => pure _
  | nanoTime => exact (read _).bind fun n => pure _
  | identityHashCode => exact (referenceArgument _ _).bind fun o => pure _
  | getProperty => exact (stringArgument _ _ _).bind property
  | sleep => exact (longArgument _ _).bind sleep
  | holdsLock =>
    refine (objectArgument _ _ _).bind fun o => get.bind fun t => ?_
    exact holdsLock _ o

theorem callArguments (arguments : List NativeValue) : Lawful (Exec.callArguments arguments) := by
  induction arguments with
  | nil => exact pure []
  | cons v rest ih => exact (nativeInt v).bind fun n => ih.bind fun ns => pure _

theorem callFromGuest (he : e.Lawful) (arguments : List NativeValue) :
    Lawful (Exec.callFromGuest e arguments) := by
  refine (callArguments arguments).bind fun ns => ?_
  cases ns with
  | nil => exact fail _
  | cons index rest => exact systemCall he index rest

theorem allocateObject (he : e.Lawful) (name : String) :
    Lawful (Exec.allocateObject e name) := by
  unfold Exec.allocateObject
  split
  · exact raise _
  · intro m
    refine (Acts.loadClass _).bind fun c m1 _ hc => ?_
    exact (Acts.allocateInstance he hc.2).bind fun o m2 _ _ => pure _ m2

theorem arrayOfClass (v : NativeValue) {length : Exec Int32} (hl : Lawful length) :
    Lawful (Exec.arrayOfClass v length) := by
  have next (n : ClassName) : Lawful (do
      let length ← length
      if !n.isArray then
        Exec.raise (.notArrayClass n)
      if length < 0 then
        Exec.raise (.negativeSize length)
      let c ← Exec.loadClass n
      Pure.pure (NativeValue.object (← Exec.newArray c length.toInt.toNat))) := by
    refine hl.bind fun count => check (raise _) fun _ => check (raise _) fun _ m => ?_
    refine (Acts.loadClass n).bind fun c m1 _ hc => ?_
    exact (Acts.newArray hc.2 _).bind fun o m2 _ _ => pure _ m2
  cases v with
  | klass n => exact (pure n).bind next
  | null => exact (raise _).bind next
  | _ => exact (read _).bind fun shown => (fail _).bind next

theorem classByName (name : String) : Lawful (Exec.classByName name) := by
  unfold Exec.classByName
  split
  · exact pure _
  · refine (looking (Resolving.finds_loadClass _)).bind fun found => ?_
    cases found with
    | ok c => exact pure _
    | error err => cases err <;> first | exact pure _ | exact throw _

theorem intrinsic (he : e.Lawful) (i : Intrinsic) (arguments : List NativeValue) :
    Lawful (Exec.intrinsic e i arguments) := by
  cases i with
  | arrayLength => exact (objectArgument _ _ _).bind fun o => (storage o).bind fun s => pure _
  | longPack => exact (intArgument _ _).bind fun high => (intArgument _ _).bind fun low => pure _
  | longUnpackHigh => exact (longArgument _ _).bind fun n => pure _
  | longUnpackLow => exact (longArgument _ _).bind fun n => pure _
  | doublePack => exact (intArgument _ _).bind fun high => (intArgument _ _).bind fun low => pure _
  | doubleToRawLongBits => exact (argument _ _).bind fun v => (nativeDouble v).bind fun x => pure _
  | longBitsToDouble => exact (longArgument _ _).bind fun n => pure _
  | floatToRawIntBits => exact (argument _ _).bind fun v => (nativeFloat v).bind fun x => pure _
  | intBitsToFloat => exact (intArgument _ _).bind fun n => pure _
  | objectToPointer => exact (referenceArgument _ _).bind fun o => (pointer o).bind fun n => pure _
  | pointerToObject => exact (intArgument _ _).bind fun id => (read _).bind fun o => pure _
  | systemCall hasResult => exact (callFromGuest he arguments).bind fun n => pure _
  | allocateObject => exact (stringArgument _ _ _).bind (allocateObject he)
  | newArray => exact (argument _ _).bind fun v => arrayOfClass v (intArgument _ _)
  | classByName => exact (stringArgument _ _ _).bind classByName
  | classOf => exact (objectArgument _ _ _).bind fun o => (classOf o).bind fun c => pure _
  | identityHashCode => exact (referenceArgument _ _).bind fun o => pure _
  | holdsLock =>
    exact (intArgument _ _).bind fun thread => (objectArgument _ _ _).bind fun o => holdsLock _ o
  | monitorNotify =>
    refine (objectArgument _ _ _).bind fun o => (intArgument _ _).bind fun all => orNotHeld ?_
    exact (notify o _).bind fun _ => pure 0
  | monitorWait =>
    refine (objectArgument _ _ _).bind fun o => (longArgument _ _).bind fun millis => ?_
    refine (intArgument _ _).bind fun nanos => orNotHeld ?_
    exact (waitOn o millis nanos).bind fun status => pure _

theorem callback (he : e.Lawful) (text : Option String) : Lawful (Exec.callback e text) := by
  unfold Exec.callback
  split
  · exact fail _
  · intro m
    refine (Acts.loadClass _).bind fun c m1 _ hc => (he.setUp m1 c hc.2).bind fun _ m2 _ _ => ?_
    split
    · exact .fail _
    · refine (invokeMethod he c _ []).bind (fun result => ?_) m2
      cases result with
      | some v => exact (ofExcept _).bind fun n => pure _
      | none => exact pure _

theorem probe (he : e.Lawful) (p : Probe) (arguments : List NativeValue) :
    Lawful (Exec.probe e p arguments) := by
  cases p with
  | log =>
    refine (update fun m => ?_).bind fun _ => pure _
    exact ⟨rfl, .refl, rfl, fun _ => rfl⟩
  | depth => exact get.bind fun t => pure _
  | callback =>
    exact (argument _ _).bind fun v => (nativeString v).bind fun text => callback he text
  | throw => exact raise _
  | fatal => exact fail _
  | exit => exact throw _
  | asInt => exact (intArgument _ _).bind fun n => pure _
  | asLong => exact (longArgument _ _).bind fun n => pure _
  | asFloat => exact (argument _ _).bind fun v => (nativeFloat v).bind fun x => pure _
  | asDouble => exact (argument _ _).bind fun v => (nativeDouble v).bind fun x => pure _
  | asObject => exact (referenceArgument _ _).bind fun o => pure _
  | asString =>
    refine (argument _ _).bind fun v => (nativeString v).bind fun found => ?_
    cases found with
    | some s => exact pure _
    | none => exact pure _
  | equal => exact (argument _ _).bind fun a => (argument _ _).bind fun b => pure _
  | _ => exact pure _

theorem applyNative (he : e.Lawful) (n : Native) (arguments : List NativeValue) :
    Lawful (Exec.applyNative e n arguments) := by
  cases n with
  | builtin b => exact builtin he b arguments
  | intrinsic i => exact intrinsic he i arguments
  | probe p => exact probe he p arguments

theorem convertArguments (m : Method) (types : List FieldType) (arguments : List Value) :
    Lawful (Exec.convertArguments m types arguments) := by
  induction types generalizing arguments with
  | nil => exact pure []
  | cons t ts ih =>
    cases arguments with
    | nil => exact fail _
    | cons v vs => exact (toNative v t).bind fun a => (ih vs).bind fun rest => pure _

theorem nativeArguments (m : Method) (arguments : List Value) :
    Lawful (Exec.nativeArguments m arguments) := by
  unfold Exec.nativeArguments
  split
  · exact convertArguments _ _ _
  · split
    · exact (convertArguments _ _ _).bind fun rest => pure _
    · exact fail _

theorem takeNative (he : e.Lawful) (m : Method) (result : NativeValue) :
    Lawful (Exec.takeNative e m result) := by
  unfold Exec.takeNative
  split
  · exact pure none
  · exact (read _).bind fun shown => fail _
  · exact (ofNative he _ _).bind fun v => pure _

theorem callNative (he : e.Lawful) (m : Method) (arguments : List Value) :
    Lawful (Exec.callNative e m arguments) := by
  refine (read _).bind fun found => ?_
  cases found with
  | none => exact fail _
  | some n =>
    refine (nativeArguments m arguments).bind fun values => ?_
    refine (update fun machine => Machine.rests_note _ machine).bind fun _ => ?_
    exact (applyNative he n values).bind fun result => takeNative he m result

end Functions

end Lawful

end BytecodeMachine.Exec
