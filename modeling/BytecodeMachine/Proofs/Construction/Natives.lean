import BytecodeMachine.Proofs.Construction.Bridge

namespace BytecodeMachine.Exec.Built

variable {α : Type} {e : Engine} {z : Realm} {r : Reach} {known : Known}

section System

theorem pointer (o : Option ObjectId) : Built e z r known (Exec.act (·.pointer o)) := by
  refine .act fun m => ?_
  have hn := Machine.keepsNumbers_pointer o m
  cases o with
  | none => exact .refl m
  | some o => exact .of_eq rfl rfl rfl rfl rfl rfl rfl rfl rfl hn fun _ h => h

theorem loadString (id : Int32) : Built e z r known (Exec.loadString e id) := by
  refine .bind (.read _) fun found => ?_
  cases found with
  | none => exact .pure _
  | some text => exact .bind (.newString text) fun o => .bind (.pointer _) fun n => .pure _

theorem stackItem (depth item : Int32) : Built e z r known (Exec.stackItem depth item) := by
  unfold Exec.stackItem
  split
  · exact .pure _
  · refine .bind .get fun t => ?_
    split
    · exact .pure _
    · refine .act fun m => ?_
      unfold Machine.frameItem
      dsimp only
      have text (file : String) : m.Mild (m.stringId file).2 :=
        .of_eq rfl rfl rfl rfl rfl rfl rfl rfl rfl (Machine.keepsNumbers_stringId file m) fun _ h => h
      repeat' split
      all_goals first | exact text _ | exact .refl m

theorem writeByte (pipe byte : Int32) : Built e z r known (Exec.act (·.writeByte pipe byte)) := by
  refine .act fun m => ?_
  unfold Machine.writeByte
  dsimp only
  repeat' split
  all_goals exact .of_eq rfl rfl rfl rfl rfl rfl rfl rfl rfl ⟨.refl _, .refl _⟩ fun _ h => h

theorem exitMachine (code : Int32) : Built e .every r known (Exec.exitMachine code) := by
  refine .bind .get fun t => .bind (.note rfl) fun _ => .bind (.report _ _ rfl) fun _ => ?_
  refine .bind (.update fun m => Machine.mild_modifyRecord (fun _ => by rfl) _ m) fun _ => ?_
  exact .bind (.lift (Prog.isMild_exit code)) fun _ => .throw _

theorem runCall (call : SystemCall) (arguments : List Int32)
    (hz : call = .errorSet ∨ call = .exit → z = .every) :
    Built e z r known (Exec.runCall e call arguments) := by
  cases call with
  | errorGet => exact .bind .get fun t => .bind (.read _) fun n => .pure _
  | errorSet => exact .bind (.report _ _ (hz (.inl rfl))) fun n => .pure _
  | wallMillisLow => exact .bind (.read _) fun n => .pure _
  | wallMillisHigh => exact .bind (.read _) fun n => .pure _
  | nanosLow => exact .bind (.read _) fun n => .pure _
  | nanosHigh => exact .bind (.read _) fun n => .pure _
  | memoryFree => exact .bind (.read _) fun n => .pure _
  | memoryUsed => exact .bind (.read _) fun n => .pure _
  | memoryMax => exact .bind (.read _) fun n => .pure _
  | exit =>
    cases hz (.inr rfl)
    exact .bind (.exitMachine _) fun _ => .pure _
  | writeByte => exact .writeByte _ _
  | loadString => exact .loadString _
  | unimplemented => exact .fail _
  | stackHeight => exact .bind .get fun t => .pure _
  | stackItem => exact .stackItem _ _
  | _ => exact .pure _

theorem systemCall (index : Int32) (arguments : List Int32) :
    Built e .every r known (Exec.systemCall e index arguments) := by
  unfold Exec.systemCall
  split
  · exact .bind (.note rfl) fun _ => .bind (.report _ _ rfl) fun _ => .pure _
  · refine .bind (.note rfl) fun _ => .bind (.runCall _ _ fun _ => rfl) fun result => ?_
    cases result with
    | ok n => exact .bind (.report _ _ rfl) fun _ => .pure _
    | error err => exact .bind (.report _ _ rfl) fun _ => .pure _

end System

section Monitors

theorem waitOn (o : ObjectId) (millis : Int64) (nanos : Int32) :
    Built e z r known (Exec.waitOn o millis nanos) := by
  refine .bind .get fun t => ?_
  refine .bind (.update fun m => Machine.mild_modifyRecord (fun _ => by rfl) _ m) fun _ => ?_
  refine .bind (.lift (Prog.isMild_waitOn _ o millis nanos)) fun outcome => ?_
  exact .bind (.update fun m => Machine.mild_modifyRecord (fun _ => by rfl) _ m) fun _ => .ofTrap outcome

theorem notify (o : ObjectId) (all : Bool) : Built e z r known (Exec.notify o all) := by
  refine .bind .get fun t => ?_
  exact .bind (.lift (Prog.isMild_notify _ o all)) fun outcome => .ofTrap outcome

theorem holdsLock (thread : Int32) (o : ObjectId) :
    Built e z r known (Exec.holdsLock thread o) :=
  .bind (.read _) fun _ => .pure _

theorem sleep (millis : Int64) : Built e z r known (Exec.sleep millis) := by
  refine .bind .get fun t => .bind (.read _) fun deadline => ?_
  refine .bind (.update fun m => Machine.mild_modifyRecord (fun _ => by rfl) _ m) fun _ => ?_
  refine .bind (.await trivial) fun wake => ?_
  refine .bind (.update fun m => Machine.mild_modifyRecord (fun _ => by rfl) _ m) fun _ => ?_
  cases wake with
  | terminated => exact .throw _
  | interrupted => exact .raise _
  | _ => exact .pure _

theorem waitOrRaise (o : ObjectId) (millis : Int64) (nanos : Int32) : Built e z r known (do
    match ← Exec.waitOn o millis nanos with
    | .interrupted => Exec.raise .interruptedWaiting
    | .notified | .timedOut => Pure.pure NativeValue.void) := by
  refine .bind (.waitOn o millis nanos) fun status => ?_
  cases status with
  | interrupted => exact .raise _
  | _ => exact .pure _

theorem waitFor (arguments : List NativeValue) : Built e z r known (Exec.waitFor arguments) := by
  refine .bind (.objectArgument _ _ _) fun o => .bind (.longArgument _ _) fun millis => ?_
  dsimp only
  split
  · exact .bind (.nativeInt _) fun nanos => .waitOrRaise o millis nanos
  · exact .bind (.pure 0) fun nanos => .waitOrRaise o millis nanos

theorem orNotHeld {x : Exec Int32} (hx : Built e z .host known x) :
    Built e z .host known (Exec.orNotHeld x) := by
  refine .recover hx (fun n => .pure _) ?_ ?_
  · intro trap ht
    cases trap with
    | raise cause =>
      dsimp only
      split
      · exact .pure _
      · exact .raise _
    | throw o => exact .throw _
    | fatal fault => cases ht
    | exit => cases ht
  · intro trap ht
    refine ⟨id, .refl, ?_⟩
    cases trap with
    | raise cause => cases ht
    | throw o => cases ht
    | fatal fault => rfl
    | exit => rfl

end Monitors

section Functions

theorem classNameText (arguments : List NativeValue) :
    Built e z r known (Exec.classNameText arguments) := by
  refine .bind (.objectArgument _ _ _) fun o => .bind (.classNameOf? o) fun found => ?_
  cases found with
  | some n => exact .pure _
  | none => exact .fail _

theorem copyRange (same : Bool) (source : ArrayStorage) (dest : ObjectId) (start place count : Nat) :
    Built e z r known (Exec.act (·.copyRange same source dest start place count)) := by
  refine .act fun m => ?_
  unfold Machine.copyRange
  repeat' split
  · exact .refl m
  · exact .refl m
  · exact .refl m
  · rename_i s _
    exact Machine.mild_modify (f := (·.setStorage s)) (fun _ => rfl) dest m

theorem copyArray (source : ObjectId) (sourcePosition : Int32) (dest : ObjectId)
    (destPosition length : Int32) :
    Built e z r known (Exec.copyArray source sourcePosition dest destPosition length) := by
  refine .bind (.object source) fun sourceObject => .bind (.object dest) fun destObject => ?_
  split
  · refine .check (.raise _) fun _ => ?_
    split
    · exact .bind (.copyRange _ _ dest _ _ _) fun result => .ofTrap result
    · exact .pure ()
  · exact .raise _

theorem copyArguments (arguments : List NativeValue) :
    Built e z r known (Exec.copyArguments arguments) := by
  refine .bind (.objectArgument _ _ _) fun source => .bind (.intArgument _ _) fun i => ?_
  refine .bind (.objectArgument _ _ _) fun dest => .bind (.intArgument _ _) fun j => ?_
  refine .bind (.intArgument _ _) fun length => ?_
  exact .bind (.copyArray source i dest j length) fun _ => .pure _

theorem property (name : String) : Built e z r known (Exec.property name) := by
  refine .bind (.read _) fun found => ?_
  cases found with
  | some text => exact .pure _
  | none => exact .pure _

theorem builtin (b : Builtin) (arguments : List NativeValue) :
    Built e z r known (Exec.builtin e b arguments) := by
  cases b with
  | getClass => exact .bind (.objectArgument _ _ _) fun o => .bind (.classOf o) fun c => .pure _
  | hashCode => exact .bind (.objectArgument _ _ _) fun o => .pure _
  | notify all => exact .bind (.objectArgument _ _ _) fun o => .bind (.notify o all) fun _ => .pure _
  | wait => exact .waitFor arguments
  | className => exact .classNameText arguments
  | intern =>
    refine .bind (.objectArgument _ _ _) fun o => .bind (.stringValue o) fun text => ?_
    exact .bind (.intern text) fun o => .pure _
  | copyArray => exact .copyArguments arguments
  | currentTimeMillis => exact .bind (.read _) fun n => .pure _
  | nanoTime => exact .bind (.read _) fun n => .pure _
  | identityHashCode => exact .bind (.referenceArgument _ _) fun o => .pure _
  | getProperty => exact .bind (.stringArgument _ _ _) fun name => .property name
  | sleep => exact .bind (.longArgument _ _) fun millis => .sleep millis
  | holdsLock =>
    refine .bind (.objectArgument _ _ _) fun o => .bind .get fun t => ?_
    exact .holdsLock _ o

theorem callArguments (arguments : List NativeValue) :
    Built e z r known (Exec.callArguments arguments) := by
  induction arguments generalizing r with
  | nil => exact .pure []
  | cons v rest ih => exact .bind (.nativeInt v) fun n => .bind ih fun ns => .pure _

theorem callFromGuest (arguments : List NativeValue) :
    Built e .every r known (Exec.callFromGuest e arguments) := by
  refine .bind (.callArguments arguments) fun ns => ?_
  cases ns with
  | nil => exact .fail _
  | cons index rest => exact .systemCall index rest

theorem allocateObject (name : String) :
    Built e .every r known (Exec.allocateObject e name) := by
  unfold Exec.allocateObject
  split
  · exact .raise _
  · refine .loadClass_bind fun c => .bind ?_ fun o => .pure _
    exact .allocateInstance List.mem_cons_self (Realm.every_setsUp _)

theorem arrayOfClass (v : NativeValue) {length : Exec Int32}
    (hl : ∀ r, Built e z r known length) : Built e z r known (Exec.arrayOfClass v length) := by
  have next (n : ClassName) : Built e z r known (do
      let length ← length
      if !n.isArray then
        Exec.raise (.notArrayClass n)
      if length < 0 then
        Exec.raise (.negativeSize length)
      let c ← Exec.loadClass n
      Pure.pure (NativeValue.object (← Exec.newArray c length.toInt.toNat))) := by
    refine .bind (hl _) fun count => .check (.raise _) fun _ => .check (.raise _) fun _ => ?_
    exact .bind (.loadClass n) fun c => .bind (.newArray c _) fun o => .pure _
  cases v with
  | klass n => exact .bind (.pure n) next
  | null => exact .bind (.raise _) next
  | _ => exact .bind (.read _) fun shown => .bind (.fail _) next

theorem classByName (name : String) : Built e z r known (Exec.classByName name) := by
  unfold Exec.classByName
  split
  · exact .pure _
  · refine .bind (.looking (Resolving.finds_loadClass _)) fun found => ?_
    cases found with
    | ok c => exact .pure _
    | error err => cases err <;> first | exact .pure _ | exact .throw _

theorem intrinsic (i : Intrinsic) (arguments : List NativeValue) :
    Built e .every .host known (Exec.intrinsic e i arguments) := by
  cases i with
  | arrayLength => exact .bind (.objectArgument _ _ _) fun o => .bind (.storage o) fun s => .pure _
  | longPack => exact .bind (.intArgument _ _) fun high => .bind (.intArgument _ _) fun low => .pure _
  | longUnpackHigh => exact .bind (.longArgument _ _) fun n => .pure _
  | longUnpackLow => exact .bind (.longArgument _ _) fun n => .pure _
  | doublePack =>
    exact .bind (.intArgument _ _) fun high => .bind (.intArgument _ _) fun low => .pure _
  | doubleToRawLongBits => exact .bind (.argument _ _) fun v => .bind (.nativeDouble v) fun x => .pure _
  | longBitsToDouble => exact .bind (.longArgument _ _) fun n => .pure _
  | floatToRawIntBits => exact .bind (.argument _ _) fun v => .bind (.nativeFloat v) fun x => .pure _
  | intBitsToFloat => exact .bind (.intArgument _ _) fun n => .pure _
  | objectToPointer => exact .bind (.referenceArgument _ _) fun o => .bind (.pointer o) fun n => .pure _
  | pointerToObject => exact .bind (.intArgument _ _) fun id => .bind (.read _) fun o => .pure _
  | systemCall hasResult => exact .bind (.callFromGuest arguments) fun n => .pure _
  | allocateObject => exact .bind (.stringArgument _ _ _) fun name => .allocateObject name
  | newArray => exact .bind (.argument _ _) fun v => .arrayOfClass v fun _ => .intArgument _ _
  | classByName => exact .bind (.stringArgument _ _ _) fun name => .classByName name
  | classOf => exact .bind (.objectArgument _ _ _) fun o => .bind (.classOf o) fun c => .pure _
  | identityHashCode => exact .bind (.referenceArgument _ _) fun o => .pure _
  | holdsLock =>
    exact .bind (.intArgument _ _) fun thread => .bind (.objectArgument _ _ _) fun o => .holdsLock _ o
  | monitorNotify =>
    refine .bind (.objectArgument _ _ _) fun o => .bind (.intArgument _ _) fun all => .orNotHeld ?_
    exact .bind (.notify o _) fun _ => .pure 0
  | monitorWait =>
    refine .bind (.objectArgument _ _ _) fun o => .bind (.longArgument _ _) fun millis => ?_
    refine .bind (.intArgument _ _) fun nanos => .orNotHeld ?_
    exact .bind (.waitOn o millis nanos) fun status => .pure _

theorem callback (text : Option String) : Built e .every r known (Exec.callback e text) := by
  unfold Exec.callback
  split
  · exact .fail _
  · refine .loadClass_bind fun c => ?_
    refine .bind (.setUp List.mem_cons_self (Realm.every_setsUp _)) fun _ => ?_
    split
    · exact .fail _
    · rename_i m hm
      refine .bind (.invoke [] (.of_declaredMethod? List.mem_cons_self hm) (Realm.every_calls _ _ _))
        fun result => ?_
      cases result with
      | some v => exact .bind (.ofExcept _) fun n => .pure _
      | none => exact .pure _

theorem probe (p : Probe) (arguments : List NativeValue) :
    Built e .every r known (Exec.probe e p arguments) := by
  cases p with
  | log =>
    refine .bind (.update fun m => ?_) fun _ => .pure _
    exact .of_eq rfl rfl rfl rfl rfl rfl rfl rfl rfl ⟨.refl _, .refl _⟩ fun _ h => h
  | depth => exact .bind .get fun t => .pure _
  | callback => exact .bind (.argument _ _) fun v => .bind (.nativeString v) fun text => .callback text
  | throw => exact .raise _
  | fatal => exact .fail _
  | exit => exact .throw _
  | asInt => exact .bind (.intArgument _ _) fun n => .pure _
  | asLong => exact .bind (.longArgument _ _) fun n => .pure _
  | asFloat => exact .bind (.argument _ _) fun v => .bind (.nativeFloat v) fun x => .pure _
  | asDouble => exact .bind (.argument _ _) fun v => .bind (.nativeDouble v) fun x => .pure _
  | asObject => exact .bind (.referenceArgument _ _) fun o => .pure _
  | asString =>
    refine .bind (.argument _ _) fun v => .bind (.nativeString v) fun found => ?_
    cases found with
    | some s => exact .pure _
    | none => exact .pure _
  | equal => exact .bind (.argument _ _) fun a => .bind (.argument _ _) fun b => .pure _
  | _ => exact .pure _

theorem applyNative (n : Native) (arguments : List NativeValue) :
    Built e .every .host known (Exec.applyNative e n arguments) := by
  cases n with
  | builtin b => exact .builtin b arguments
  | intrinsic i => exact .intrinsic i arguments
  | probe p => exact .probe p arguments

theorem convertArguments (m : Method) (types : List FieldType) (arguments : List Value) :
    Built e z r known (Exec.convertArguments m types arguments) := by
  induction types generalizing arguments r with
  | nil => exact .pure []
  | cons t ts ih =>
    cases arguments with
    | nil => exact .fail _
    | cons v vs => exact .bind (.toNative v t) fun a => .bind (ih vs) fun rest => .pure _

theorem nativeArguments (m : Method) (arguments : List Value) :
    Built e z r known (Exec.nativeArguments m arguments) := by
  unfold Exec.nativeArguments
  split
  · exact .convertArguments _ _ _
  · split
    · exact .bind (.convertArguments _ _ _) fun rest => .pure _
    · exact .fail _

theorem takeNative (m : Method) (result : NativeValue) :
    Built e .every r known (Exec.takeNative e m result) := by
  unfold Exec.takeNative
  split
  · exact .pure none
  · exact .bind (.read _) fun shown => .fail _
  · exact .bind (.ofNative _ _) fun v => .pure _

theorem callNative (m : Method) (arguments : List Value) :
    Built e .every .host known (Exec.callNative e m arguments) := by
  refine .bind (.read _) fun found => ?_
  cases found with
  | none => exact .fail _
  | some n =>
    refine .bind (.nativeArguments m arguments) fun values => ?_
    refine .bind (.update fun machine => Machine.mild_note _ machine) fun _ => ?_
    exact .bind (.applyNative n values) fun result => .takeNative m result

end Functions

end BytecodeMachine.Exec.Built
