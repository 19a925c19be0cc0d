import BytecodeMachine.Proofs.ArrayTrees.Shapes
import BytecodeMachine.Proofs.SpecialCalls
import BytecodeMachine.Proofs.MismatchedCalls

namespace BytecodeMachine

namespace ClassTable

variable {libraries : List Library} {table : ClassTable} {c : Class} {u : FieldType}

theorem Closed.depthOf (h : Closed libraries table) (hc : table.get? c.name = some c)
    (hu : c.componentType? = some u) : Exec.depthOf c = u.depth + 1 := by
  have harray : c.isArray = true := by
    unfold Class.componentType? at hu
    split at hu
    · simp [Class.isArray, *]
    · cases hu
  obtain ⟨t, hshape, ht, -⟩ := h.shape_of_isArray hc harray
  obtain rfl : t = u := by simpa [Class.componentType?, hshape] using hu
  rw [Exec.depthOf, ht]
  rfl

end ClassTable

namespace Exec

open Machine

variable {α : Type} {i : Nat} {m0 : Machine} {alone idle : Prop} {t : Thread} {s : Scene}
  {c k : Class} {o : ObjectId} {b : Machine}

end Exec

end BytecodeMachine
