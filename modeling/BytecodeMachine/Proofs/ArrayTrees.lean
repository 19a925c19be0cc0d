import BytecodeMachine.Proofs.ArrayTrees.Building
import BytecodeMachine.Proofs.FieldTyping
import BytecodeMachine.Proofs.Lookup.Fields

namespace BytecodeMachine

theorem Resolving.Agrees.resolveClass {libraries : List Library} (n : ClassName)
    (context : Option Class) : Agrees (Resolving.resolveClass libraries n context) libraries :=
  (loadClass n).bind fun c => (checkClass c context).bind fun _ => pure c

namespace Machine

variable {α : Type} {m0 : Machine} {alone : Prop}

theorem settings_resolve (res : List Library → Resolving α) (m : Machine) :
    (m.resolve res).2.settings = m.settings := by
  have step (l : ClassTable) (m1 : Machine) :
      (l.foldl (fun m e => m.note (.loaded e.1)) m1).settings = m1.settings := by
    induction l generalizing m1 with
    | nil => rfl
    | cons e l ih => exact ih _
  exact step _ _

theorem Gains.resolve (res : List Library → Resolving α) (m : Machine) :
    m0.Gains alone [] m (m.resolve res).2 :=
  .of_heap (settings_resolve res m) (Exec.heap_resolve res m).1

end Machine

namespace Exec

open Machine

variable {α : Type}

namespace IsPrompt

theorem newArray (c : Class) (count : Nat) : (Exec.newArray c count).IsPrompt := by
  unfold Exec.newArray
  dsimp only
  refine (read _).bind fun most => ?_
  split
  · exact (note _).bind fun _ _ => trivial
  · split
    · exact fail _
    · exact act _

theorem storeElement (o : ObjectId) (index : Int32) (v : Value) :
    (Exec.storeElement o index v).IsPrompt := by
  refine bind ((object o).bind fun x => ofExcept _) fun s => ?_
  exact (ofTrap _).bind fun _ => update _

theorem fillDimensions {k : Class} {size : Nat} {inner : List Nat}
    (h : (Exec.newDimensions k size inner).IsPrompt) (o : ObjectId) (index left : Nat) :
    (Exec.fillDimensions o k size inner index left).IsPrompt := by
  induction left generalizing index with
  | zero =>
    rw [Exec.fillDimensions]
    exact pure _
  | succ left ih =>
    rw [Exec.fillDimensions]
    exact h.bind fun e => (storeElement _ _ _).bind fun _ => ih (index + 1)

theorem newDimensions (c : Class) (count : Nat) (inner : List Nat) :
    (Exec.newDimensions c count inner).IsPrompt := by
  induction inner generalizing c count with
  | nil =>
    rw [Exec.newDimensions]
    exact (newArray c count).bind pure
  | cons size rest ih =>
    rw [Exec.newDimensions]
    refine (newArray c count).bind fun o => ?_
    dsimp only
    split
    · exact fail _
    · exact (fillDimensions (ih _ _) _ _ _).bind fun _ => pure _

theorem asInts (vs : List Value) : (Exec.asInts vs).IsPrompt := by
  induction vs with
  | nil => exact pure _
  | cons v rest ih =>
    exact (ofExcept _).bind fun n => ih.bind fun _ => pure _

theorem newMultiArray (n : ClassName) (d : Nat) : (Exec.newMultiArray n d).IsPrompt := by
  refine (get.bind fun t => resolve _).bind fun c => guard (fail _) fun _ => ?_
  refine (inFrame _).bind fun vs => (asInts vs).bind fun counts => ?_
  split
  · exact raise _
  · split
    · exact fail _
    · exact (newDimensions _ _ _).bind fun o => inFrame _

end IsPrompt

variable {i : Nat} {m0 : Machine} {alone idle : Prop} {t : Thread} {s : Scene} {n : ClassName}
  {c : Class} {u : FieldType} {counts : List Int32} {frame : Frame} {below : List Value}
  {rest : List Frame}

open CoreLibrary ClassTable

end Exec

end BytecodeMachine
