import BytecodeMachine.Proofs.Construction.Host

namespace BytecodeMachine.Exec

variable {α : Type}

theorem Realm.every_setsUp (n : ClassName) : Realm.every.SetsUp n := nofun

theorem Realm.every_calls (known : Known) (c : Class) (m : Method) :
    Realm.every.Calls known c m := nofun

namespace Built

variable {e : Engine} {r : Reach} {known : Known}

section Values

variable {z : Realm}

theorem refuseShape (v : NativeValue) (expected : String) :
    Built e z r known (Exec.refuseShape v expected : Exec α) :=
  .bind (.read _) fun _ => .fail _

theorem nativeInt (v : NativeValue) : Built e z r known (Exec.nativeInt v) := by
  cases v with
  | int n => exact .pure n
  | _ => exact .refuseShape _ _

theorem nativeLong (v : NativeValue) : Built e z r known (Exec.nativeLong v) := by
  cases v with
  | long n => exact .pure n
  | _ => exact .refuseShape _ _

theorem nativeFloat (v : NativeValue) : Built e z r known (Exec.nativeFloat v) := by
  cases v with
  | float x => exact .pure x
  | _ => exact .refuseShape _ _

theorem nativeDouble (v : NativeValue) : Built e z r known (Exec.nativeDouble v) := by
  cases v with
  | double x => exact .pure x
  | _ => exact .refuseShape _ _

theorem nativeObject (v : NativeValue) : Built e z r known (Exec.nativeObject v) := by
  cases v with
  | object o => exact .pure (some o)
  | null => exact .pure none
  | _ => exact .refuseShape _ _

theorem nativeString (v : NativeValue) : Built e z r known (Exec.nativeString v) := by
  cases v with
  | string s => exact .pure (some s)
  | null => exact .pure none
  | _ => exact .refuseShape _ _

theorem argument (arguments : List NativeValue) (index : Nat) :
    Built e z r known (Exec.argument arguments index) := by
  unfold Exec.argument
  split
  · exact .pure _
  · exact .fail _

theorem intArgument (arguments : List NativeValue) (index : Nat) :
    Built e z r known (Exec.intArgument arguments index) :=
  .bind (.argument arguments index) fun v => .nativeInt v

theorem longArgument (arguments : List NativeValue) (index : Nat) :
    Built e z r known (Exec.longArgument arguments index) :=
  .bind (.argument arguments index) fun v => .nativeLong v

theorem referenceArgument (arguments : List NativeValue) (index : Nat) :
    Built e z r known (Exec.referenceArgument arguments index) :=
  .bind (.argument arguments index) fun v => .nativeObject v

theorem objectArgument (arguments : List NativeValue) (index : Nat) (context : String) :
    Built e z r known (Exec.objectArgument arguments index context) := by
  refine .bind (.referenceArgument arguments index) fun found => ?_
  cases found with
  | some o => exact .pure o
  | none => exact .raise _

theorem stringArgument (arguments : List NativeValue) (index : Nat) (missing : Cause) :
    Built e z r known (Exec.stringArgument arguments index missing) := by
  refine .bind (.argument arguments index) fun v => .bind (.nativeString v) fun found => ?_
  cases found with
  | some s => exact .pure s
  | none => exact .raise _

theorem refuseCrossing (shown : Machine → String) (t : FieldType) :
    Built e z r known (Exec.refuseCrossing shown t : Exec α) :=
  .bind (.read _) fun _ => .fail _

theorem refuseObject (o : ObjectId) (t : FieldType) :
    Built e z r known (Exec.refuseObject o t : Exec α) :=
  .refuseCrossing _ _

theorem hostStrings (refs : List (Option ObjectId)) :
    Built e z r known (Exec.hostStrings refs) := by
  induction refs generalizing r with
  | nil => exact .pure []
  | cons o rest ih =>
    cases o with
    | none => exact .bind ih fun texts => .pure _
    | some o => exact .bind (.stringValue o) fun text => .bind ih fun texts => .pure _

theorem unbox (o : ObjectId) : Built e z r known (Exec.unbox o) :=
  .bind (.read _) fun _ => .ofExcept _

theorem arrayToNative (o : ObjectId) (component : FieldType) :
    Built e z r known (Exec.arrayToNative o component) := by
  refine .bind (.storage o) fun s => ?_
  split
  · split
    · exact .pure _
    · exact .refuseObject _ _
  · split
    · split
      · exact .pure _
      · exact .refuseObject _ _
    · split
      · split
        · exact .bind (.hostStrings _) fun texts => .pure _
        · exact .refuseObject _ _
      · exact .pure _

theorem objectToNative (o : ObjectId) (n : ClassName) :
    Built e z r known (Exec.objectToNative o n) := by
  unfold Exec.objectToNative
  split
  · exact .bind (.stringValue o) fun s => .pure _
  · split
    · refine .bind (.classNameOf? o) fun found => ?_
      cases found with
      | some name => exact .pure _
      | none => exact .refuseObject _ _
    · split
      · refine .bind (.classOf o) fun c => ?_
        split
        · exact .refuseObject _ _
        · exact .bind (.unbox o) fun v => .pure _
      · exact .pure _

theorem toNative (v : Value) (t : FieldType) : Built e z r known (Exec.toNative v t) := by
  unfold Exec.toNative
  split
  · split
    · exact .pure _
    · exact .refuseCrossing _ _
  · exact .pure _
  · exact .objectToNative _ _
  · exact .arrayToNative _ _
  · exact .refuseCrossing _ _

theorem ofNativeBase (v : NativeValue) (b : BaseType) :
    Built e z r known (Exec.ofNativeBase v b) := by
  unfold Exec.ofNativeBase
  split
  · exact .pure _
  · exact .pure _
  · exact .pure _
  · split
    · exact .pure _
    · exact .refuseCrossing _ _
  · exact .refuseCrossing _ _

end Values

theorem box (n : ClassName) (v : Value) : Built e .every r known (Exec.box e n v) := by
  refine .loadClass_bind fun c => ?_
  refine .bind (.setUp List.mem_cons_self (Realm.every_setsUp n)) fun _ => ?_
  split
  · exact .fail _
  · refine .check (.fail _) fun _ => ?_
    exact .bind (.newObject c) fun o => .bind (.setField _ _ _) fun _ => .pure o

theorem boxed (v : NativeValue) (t : FieldType) :
    Built e .every r known (Exec.ofNativeReference.boxed e v t) := by
  unfold Exec.ofNativeReference.boxed
  split
  · split
    · exact .bind (.ofNativeBase _ _) fun v => .bind (.box _ v) fun o => .pure _
    · exact .refuseCrossing _ _
  · exact .refuseCrossing _ _

theorem ofNativeReference (v : NativeValue) (t : FieldType) :
    Built e .every r known (Exec.ofNativeReference e v t) := by
  unfold Exec.ofNativeReference
  cases v with
  | null => exact .pure _
  | object o => exact .pure _
  | string s =>
    dsimp only
    split
    · exact .bind (.newString s) fun o => .pure _
    · exact .boxed _ t
  | klass n =>
    dsimp only
    split
    · exact .bind (.classObject n) fun o => .pure _
    · exact .boxed _ t
  | chars units =>
    dsimp only
    split
    · exact .bind (.arrayOf _ _) fun o => .pure _
    · exact .boxed _ t
  | ints ns =>
    dsimp only
    split
    · exact .bind (.arrayOf _ _) fun o => .pure _
    · exact .boxed _ t
  | strings texts =>
    dsimp only
    split
    · exact .bind (.newStringArray texts) fun o => .pure _
    · exact .boxed _ t
  | _ => exact .boxed _ t

theorem ofNative (v : NativeValue) (t : FieldType) :
    Built e .every r known (Exec.ofNative e v t) := by
  unfold Exec.ofNative
  split
  · exact .ofNativeBase v _
  · exact .ofNativeReference v t

end Built

end BytecodeMachine.Exec
