import BytecodeMachine.Proofs.Bridge.Making

namespace BytecodeMachine

open CoreLibrary

variable {i n : Nat} {t : Thread} {s : Scene} {m : Machine} {o : ObjectId} {v : Value}

namespace CoreLibrary

variable {e : ClassName × ClassName × BaseType × String}

def boxField (e : ClassName × ClassName × BaseType × String) : Field :=
  ⟨e.1, .value, .base e.2.2.1, hiddenFinal, 0, some 0, none⟩

theorem declaredField?_box : ∀ e ∈ boxes,
    (boxRecord e.1 e.2.1 e.2.2.1 e.2.2.2).declaredField? .value = some (boxField e) := by
  intro e he
  simp only [boxes, List.mem_cons, List.not_mem_nil, or_false] at he
  rcases he with rfl | rfl | rfl | rfl | rfl | rfl | rfl | rfl
  all_goals rfl

theorem layout_box : ∀ e ∈ boxes,
    (boxRecord e.1 e.2.1 e.2.2.1 e.2.2.2).layout = [.base e.2.2.1] := by
  intro e he
  simp only [boxes, List.mem_cons, List.not_mem_nil, or_false] at he
  rcases he with rfl | rfl | rfl | rfl | rfl | rfl | rfl | rfl
  all_goals rfl

theorem body_boxed (he : e ∈ boxes) (v : Value) :
    ((Object.instanceOf (boxRecord e.1 e.2.1 e.2.2.1 e.2.2.2)).setField 0 v).body =
      .fields #[v] := by
  simp [Object.instanceOf, Object.setField, layout_box e he]

end CoreLibrary

structure Machine.Boxes (m : Machine) (o : ObjectId) (name : ClassName) (v : Value) : Prop where
  object : ∃ x : Object, m.heap.get? o = some x ∧ x.klass.name = name
  content : m.unbox o = .ok v

theorem Machine.boxes_record {e : ClassName × ClassName × BaseType × String} (he : e ∈ boxes)
    (ho : m.heap.get? o = some
      ((Object.instanceOf (boxRecord e.1 e.2.1 e.2.2.1 e.2.2.2)).setField 0 v)) :
    m.Boxes o e.1 v := by
  refine ⟨⟨_, ho, rfl⟩, ?_⟩
  have hklass : ((Object.instanceOf (boxRecord e.1 e.2.1 e.2.2.1 e.2.2.2)).setField 0 v).klass =
      boxRecord e.1 e.2.1 e.2.2.1 e.2.2.2 := rfl
  have hfield : ((Object.instanceOf (boxRecord e.1 e.2.1 e.2.2.1 e.2.2.2)).setField 0 v).field 0 =
      .ok v := by
    simp [Object.field, body_boxed he]
  simp only [unbox, ho, bind, Except.bind, hklass, declaredField?_box e he]
  exact hfield

namespace Exec

theorem gives_boxRecord {e : ClassName × ClassName × BaseType × String} (he : e ∈ boxes)
    (hs : s.machine.Serves t.id) (hv : v.fits (.base e.2.2.1) = true) :
    (box (.bounded (n + 4)) e.1 v).Gives i t (fun o m => s.machine.Adds t.id m ∧
      s.machine.heap.get? o = none ∧ m.heap.get? o = some
        ((Object.instanceOf (boxRecord e.1 e.2.1 e.2.2.1 e.2.2.2)).setField 0 v)) s := by
  refine (gives_record hs (get?_box e he)).bind fun c s1 h1 => ?_
  obtain ⟨rfl, h1⟩ := h1
  refine (setsUp_box n he i t s1 (hs.continue h1.toContinues)).bind fun _ s2 h2 => ?_
  replace h1 := h1.trans h2
  simp only [declaredField?_box e he, boxField, hv, Bool.not_true, Bool.false_eq_true, if_false]
  refine (gives_newObject _).bind fun o s3 h3 => ?_
  obtain ⟨h3, hfresh, ho⟩ := h3
  have hzero : (Object.instanceOf (boxRecord e.1 e.2.1 e.2.2.1 e.2.2.2)).field 0 =
      .ok (.default (.base e.2.2.1)) := by
    simp [Object.instanceOf, Object.field, layout_box e he]
  refine (gives_setField v ho hzero).bind fun _ s4 h4 => gives_pure ?_
  refine ⟨h1.adds.trans (h3.modify hfresh h4), h1.heap ▸ hfresh, ?_⟩
  rw [h4.heap]
  exact Heap.get?_modify_self _ ho

theorem gives_box {name : ClassName} {b : BaseType} (hs : s.machine.Serves t.id)
    (hn : name.boxed? = some b) (hv : v.fits (.base b) = true) :
    (box (.bounded (n + 4)) name v).Gives i t
      (fun o m => s.machine.Adds t.id m ∧ m.Boxes o name v) s := by
  obtain ⟨e, he, rfl, rfl⟩ := exists_box hn
  exact (gives_boxRecord he hs hv).mono fun o m h => ⟨h.1, Machine.boxes_record he h.2.2⟩

theorem gives_unbox {name : ClassName} (h : s.machine.Boxes o name v) :
    (unbox o).Gives i t (fun w m => w = v ∧ m = s.machine) s := by
  refine gives_read.bind fun r s1 h1 => ?_
  rw [h1.1, h.content]
  exact gives_pure ⟨rfl, h1.2⟩

end Exec

end BytecodeMachine
