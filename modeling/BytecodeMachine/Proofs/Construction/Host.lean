import BytecodeMachine.Entry
import BytecodeMachine.Proofs.Construction

namespace BytecodeMachine

variable {α : Type}

namespace Prog

theorem isMild_exitMonitor (thread : Nat) (o : ObjectId) (checked : Bool) :
    (exitMonitor thread o checked).IsMild := by
  refine isMild_bind (isMild_act fun m => ?_) fun b => ?_
  · unfold Machine.actOn
    split <;> exact Machine.mild_setMonitor _ _ m
  · split <;> trivial

theorem isMild_notify (thread : Nat) (o : ObjectId) (all : Bool) :
    (notify thread o all).IsMild := by
  refine isMild_bind (isMild_act fun m => ?_) fun b => ?_
  · unfold Machine.actOn
    split <;> exact Machine.mild_setMonitor _ _ m
  · split <;> trivial

theorem isMild_enterMonitor (thread : Nat) (o : ObjectId) : (enterMonitor thread o).IsMild := by
  refine isMild_bind (isMild_await trivial) fun w => ?_
  cases w <;> trivial

theorem isMild_waitOn (thread : Nat) (o : ObjectId) (millis : Int64) (nanos : Int32) :
    (waitOn thread o millis nanos).IsMild := by
  refine isMild_bind (isMild_update fun m => Machine.mild_setMonitor _ _ m) fun _ => ?_
  refine isMild_bind (isMild_read _) fun held => ?_
  dsimp only
  split
  · trivial
  · refine isMild_bind (isMild_act fun m => Machine.mild_takeInterrupt thread m) fun b => ?_
    split
    · trivial
    · refine isMild_bind (isMild_read _) fun d => ?_
      refine isMild_bind (isMild_act fun m => Machine.mild_setMonitor _ _ m) fun p => ?_
      refine isMild_bind (isMild_await trivial) fun w => ?_
      refine isMild_bind (isMild_await trivial) fun _ => ?_
      refine isMild_bind (isMild_read _) fun b => ?_
      split <;> trivial

theorem isMild_tellAll (threads : List Nat) : (tellAll threads).IsMild := by
  induction threads with
  | nil => trivial
  | cons thread rest ih =>
    refine isMild_bind isMild_turn fun _ => ?_
    exact isMild_bind (isMild_update fun m => Machine.mild_modifyRecord (fun _ => by rfl) _ m) fun _ => ih

theorem isMild_exit (code : Int32) : (exit code).IsMild := by
  refine isMild_bind (isMild_update fun m => Machine.mild_recordExit code m) fun _ => ?_
  refine isMild_bind isMild_turn fun _ => ?_
  exact isMild_bind (isMild_read _) fun threads => isMild_tellAll threads

end Prog

theorem CoreLibrary.has_className (c : Condition) : Has c.className := by
  cases c <;> decide

namespace Exec.Built

variable {e : Engine} {z : Realm} {r : Reach} {known : Known}

theorem newObject (c : Class) : Built e z r known (Exec.newObject c) :=
  .act fun m => Machine.mild_alloc _ _ m

theorem allocateInstance {n : ClassName} {c : Class} (hc : (n, c) ∈ known) (hz : z.SetsUp n) :
    Built e z r known (Exec.allocateInstance e c) :=
  .check (.raise _) fun _ => .bind (.setUp hc hz) fun _ => .newObject c

theorem allocNew (c : Class) (length : Nat) : Built e z r known (match c.componentType? with
    | none => Exec.fail (.notArrayClass c.name)
    | some t => Exec.act (·.alloc (.ofStorage c (.new t length)) (arrayBytes c length))) := by
  split
  · exact .fail _
  · exact .act fun m => Machine.mild_alloc _ _ m

theorem newArray (c : Class) (length : Nat) : Built e z r known (Exec.newArray c length) := by
  unfold Exec.newArray
  refine .bind (.read _) fun most => ?_
  dsimp only
  split
  · exact .bind (.note rfl) fun _ => .bind (.raise _) fun _ => .allocNew c length
  · exact .allocNew c length

theorem arrayOf (component : FieldType) (s : ArrayStorage) :
    Built e z r known (Exec.arrayOf component s) :=
  .bind (.arrayClass component) fun _ => .act fun m => Machine.mild_alloc _ _ m

theorem storage (o : ObjectId) : Built e z r known (Exec.storage o) :=
  .bind (.object o) fun _ => .ofExcept _

theorem field (o : ObjectId) (slot : Nat) : Built e z r known (Exec.field o slot) :=
  .bind (.object o) fun _ => .ofExcept _

theorem setField (o : ObjectId) (slot : Nat) (v : Value) :
    Built e z r known (Exec.setField o slot v) :=
  .bind (.field o slot) fun _ =>
    .update fun m => Machine.mild_modify (fun x => x.klass_setField slot v) o m

theorem storeElement (o : ObjectId) (index : Int32) (v : Value) :
    Built e z r known (Exec.storeElement o index v) := by
  refine .bind (.storage o) fun s => .bind (.ofTrap _) fun i => ?_
  exact .update fun m => Machine.mild_modify (fun x => x.klass_setElement i v) o m

theorem stringValue (o : ObjectId) : Built e z r known (Exec.stringValue o) :=
  .bind (.read _) fun _ => .ofExcept _

theorem constructString {c : Class} {m : Method} {t : MethodType}
    (hm : c.declaredMethod? .constructor t = some m) (o chars : ObjectId) :
    Built e z r ((.string, c) :: known) (invokeMethod e c m [.object o, .object chars]) := by
  have hmem := List.mem_of_find?_eq_some hm
  refine .invoke _ (.declared List.mem_cons_self hmem) fun _ => ?_
  refine ⟨_, List.mem_cons_self, by decide, hmem, ?_⟩
  simpa using And.left (by simpa using List.find?_some hm)

theorem newStringOfUnits (units : List UInt16) :
    Built e z r known (Exec.newStringOfUnits e units) := by
  refine .bind (.arrayOf _ _) fun chars => .loadClass_bind fun c => ?_
  refine .bind (.setUp List.mem_cons_self fun _ => by decide) fun _ => ?_
  split
  · exact .fail _
  · rename_i constructor hm
    exact .bind (.newObject c) fun o => .bind (.constructString hm o chars) fun _ => .pure o

theorem newString (text : String) : Built e z r known (Exec.newString e text) :=
  .newStringOfUnits _

theorem newString_keep (text : String) : Built e z r known (do
    let o ← Exec.newString e text
    Exec.act (·.keep text o)) := by
  rw [Exec.newString, Exec.newStringOfUnits, bind_assoc]
  refine .bind (.arrayOf _ _) fun chars => ?_
  rw [bind_assoc]
  refine .loadClass_bind fun c => ?_
  rw [bind_assoc]
  refine .bind (.setUp List.mem_cons_self fun _ => by decide) fun _ => ?_
  split
  · exact .fail _
  · rename_i constructor hm
    simp only [bind_assoc, pure_bind]
    exact .keep c text fun o => .constructString hm o chars

theorem intern (text : String) : Built e z r known (Exec.intern e text) := by
  refine .locked (.bind (.read _) fun found => ?_)
  split
  · exact .pure _
  · exact .newString_keep text

theorem classObject (n : ClassName) : Built e z r known (Exec.classObject e n) := by
  refine .locked (.bind (.read _) fun found => ?_)
  split
  · exact .pure _
  · refine .loadClass_bind fun _ => .loadClass_bind fun c => ?_
    refine .bind (.setUp List.mem_cons_self fun _ => by decide) fun _ => ?_
    exact .enroll n List.mem_cons_self (List.mem_cons_of_mem _ List.mem_cons_self)

theorem classNameOf? (o : ObjectId) : Built e z r known (Exec.classNameOf? o) :=
  .locked (.read _)

theorem throwableMessage? (o : ObjectId) : Built e z r known (Exec.throwableMessage? o) :=
  .read _

theorem storeStrings (array : ObjectId) (i : Nat) (texts : List (Option String)) :
    Built e z r known (Exec.storeStrings e array i texts) := by
  induction texts generalizing i r with
  | nil => exact .pure ()
  | cons text rest ih =>
    cases text with
    | none => exact ih (i + 1)
    | some text =>
      exact .bind (.newString text) fun o => .bind (.storeElement _ _ _) fun _ => ih (i + 1)

theorem newStringArray (texts : List (Option String)) :
    Built e z r known (Exec.newStringArray e texts) := by
  refine .bind (.arrayClass _) fun c => .bind (.newArray c _) fun array => ?_
  exact .bind (.storeStrings array 0 texts) fun _ => .pure array

theorem newThrowable {n : ClassName} (hn : CoreLibrary.Has n) (message : String) :
    Built e z r known (Exec.newThrowable e n message) := by
  refine .loadClass_bind fun c => .bind (.setUp List.mem_cons_self fun _ => hn) fun _ => ?_
  split
  · exact .fail _
  · rename_i constructor hm
    refine .bind (.newObject c) fun o => .bind (.newString message) fun text => ?_
    have hmem := List.mem_of_find?_eq_some hm
    refine .bind (.invoke _ (.declared List.mem_cons_self hmem) ?_) fun _ => .pure o
    intro _
    refine ⟨n, List.mem_cons_self, hn, hmem, ?_⟩
    simpa using And.left (by simpa using List.find?_some hm)

theorem materialize (cause : Cause) : Built e z r known (Exec.materialize e cause) :=
  .newThrowable (CoreLibrary.has_className _) _

theorem writeReport (headline : String) (frames : List String) :
    Built e z r known (Exec.writeReport headline frames) := by
  refine .update fun m => ?_
  split
  · exact .of_eq rfl rfl rfl rfl rfl rfl rfl rfl rfl ⟨.refl _, .refl _⟩ fun _ h => h
  · exact Machine.mild_note _ m

theorem findHandler (c : Class) (handlers : List Handler) :
    Built e z r known (Exec.findHandler c handlers) := by
  induction handlers generalizing r with
  | nil => exact .pure none
  | cons h rest ih =>
    unfold Exec.findHandler
    split
    · exact .pure _
    · refine .bind (.looking (Resolving.finds_loadClass _)) fun found => ?_
      cases found with
      | error err => exact .fail _
      | ok catchType =>
        dsimp only
        split
        · exact .pure _
        · exact ih

end Exec.Built

end BytecodeMachine
