import BytecodeMachine.Proofs.Identities.Newborns

namespace BytecodeMachine

variable {α : Type}

namespace Machine

theorem IsOf.ne_none {m : Machine} {o : ObjectId} {c : ClassName} (h : m.IsOf o c) :
    m.heap.get? o ≠ none := by
  obtain ⟨x, hx, -⟩ := h
  rw [hx]
  exact nofun

structure Expects (m : Machine) (b : Newborn) : Prop where
  isOf : m.IsOf b.object b.klass
  unlisted : ∀ n, m.classObjects.get? n ≠ some b.object

structure InHands (m : Machine) (r : Nat → List Newborn) : Prop where
  expects : ∀ i, ∀ b ∈ r i, m.Expects b
  nodup : ∀ i, ((r i).map (·.object)).Nodup
  apart : ∀ i j, i ≠ j → ∀ b ∈ r i, ∀ d ∈ r j, b.object ≠ d.object

variable {m m' : Machine} {r : Nat → List Newborn} {i : Nat} {l : List Newborn} {b : Newborn}

theorem Expects.bears (h : m.Expects b) (hb : m.Bears m') : m'.Expects b :=
  ⟨hb.isOf h.isOf, fun n => hb.classObjects ▸ h.unlisted n⟩

theorem Expects.enroll (h : m.Expects b) (n : ClassName) {o : ObjectId} (ho : b.object ≠ o) :
    (m.enroll n o).2.Expects b where
  isOf := h.isOf
  unlisted n' hn := by
    change (m.classObjects.enter n o).2.get? n' = _ at hn
    rw [ClassObjects.get?_enter] at hn
    split at hn
    · cases hp : m.classObjects.get? n with
      | none =>
        rw [hp] at hn
        exact ho (Option.some.inj hn).symm
      | some p =>
        rw [hp] at hn
        exact h.unlisted n (hp.trans hn)
    · exact h.unlisted n' hn

namespace InHands

theorem none (m : Machine) : m.InHands fun _ => [] :=
  ⟨nofun, fun _ => List.nodup_nil, nofun⟩

theorem update (h : m.InHands r) (new : ∀ b ∈ l, m'.Expects b) (nodup : (l.map (·.object)).Nodup)
    (old : ∀ j, j ≠ i → ∀ d ∈ r j, m'.Expects d ∧ ∀ b ∈ l, b.object ≠ d.object) :
    m'.InHands (Function.update r i l) := by
  have other {j : Nat} (hj : j ≠ i) : Function.update r i l j = r j := Function.update_of_ne hj ..
  have own : Function.update r i l i = l := Function.update_self ..
  refine ⟨fun j b hb => ?_, fun j => ?_, fun j k hjk b hb d hd => ?_⟩
  · by_cases hj : j = i
    · subst hj
      exact new b (own ▸ hb)
    · exact (old j hj b (other hj ▸ hb)).1
  · by_cases hj : j = i
    · subst hj
      exact own.symm ▸ nodup
    · exact (other hj).symm ▸ h.nodup j
  · by_cases hj : j = i
    · subst hj
      rw [own] at hb
      rw [other (Ne.symm hjk)] at hd
      exact (old k (Ne.symm hjk) d hd).2 b hb
    · rw [other hj] at hb
      by_cases hk : k = i
      · subst hk
        rw [own] at hd
        exact ((old j hj b hb).2 d hd).symm
      · rw [other hk] at hd
        exact h.apart j k hjk b hb d hd

theorem bears (h : m.InHands r) (hb : m.Bears m') : m'.InHands r :=
  ⟨fun i b hi => (h.expects i b hi).bears hb, h.nodup, h.apart⟩

theorem drop (h : m.InHands r) (hl : l <:+ r i) : m.InHands (Function.update r i l) := by
  refine h.update (fun b hb => h.expects i b (hl.subset hb)) ?_ fun j hj d hd =>
    ⟨h.expects j d hd, fun b hb => h.apart i j (Ne.symm hj) b (hl.subset hb) d hd⟩
  exact (h.nodup i).sublist (hl.sublist.map _)

theorem make (h : m.InHands r) (hm : m.Mirrored) (hb : m.Bears m')
    (hfree : m.heap.get? b.object = Option.none) (ho : m'.IsOf b.object b.klass) :
    m'.InHands (Function.update r i (b :: r i)) := by
  have fresh {j : Nat} {d : Newborn} (hd : d ∈ r j) : d.object ≠ b.object :=
    fun he => (h.expects j d hd).isOf.ne_none (he ▸ hfree)
  refine h.update (List.forall_mem_cons.2 ⟨⟨ho, fun n hn => ?_⟩, fun d hd => ?_⟩) ?_
    fun j hj d hd => ⟨(h.expects j d hd).bears hb, List.forall_mem_cons.2 ⟨(fresh hd).symm, ?_⟩⟩
  · exact (hm.mirrors n b.object (hb.classObjects ▸ hn)).ne_none hfree
  · exact (h.expects i d hd).bears hb
  · rw [List.map_cons, List.nodup_cons]
    refine ⟨fun hmem => ?_, h.nodup i⟩
    obtain ⟨d, hd, he⟩ := List.mem_map.1 hmem
    exact fresh hd he
  · exact fun c hc => h.apart i j (Ne.symm hj) c hc d hd

theorem settle (h : m.InHands r) (hi : r i = b :: l)
    (hx : ∀ d, m.Expects d → d.object ≠ b.object → m'.Expects d) :
    m'.InHands (Function.update r i l) := by
  have hmem {d : Newborn} (hd : d ∈ l) : d ∈ r i := hi ▸ List.mem_cons_of_mem b hd
  have hnodup := h.nodup i
  rw [hi, List.map_cons, List.nodup_cons] at hnodup
  refine h.update (fun d hd => hx d (h.expects i d (hmem hd)) ?_) hnodup.2 fun j hj d hd =>
    ⟨hx d (h.expects j d hd) (h.apart j i hj d hd b (hi ▸ List.mem_cons_self)),
      fun c hc => h.apart i j (Ne.symm hj) c (hmem hc) d hd⟩
  exact fun he => hnodup.1 (he ▸ List.mem_map_of_mem hd)

end InHands

theorem Mirrored.raises (hm : m.Mirrored) (h : m.InHands r) {l1 : List Newborn}
    (hl : l1 <:+ r i) (hr : m.Raises l1 m' l) :
    m'.Mirrored ∧ m'.InHands (Function.update r i l) := by
  replace h := h.drop hl
  have hi : Function.update r i l1 i = l1 := Function.update_self ..
  have htwice : Function.update (Function.update r i l1) i l = Function.update r i l :=
    Function.update_idem ..
  rw [← htwice]
  generalize Function.update r i l1 = r at h hi ⊢
  cases hr with
  | leave hb =>
    rw [← hi, Function.update_eq_self]
    exact ⟨hm.bears hb.toBears, h.bears hb.toBears⟩
  | make hb hfree ho => exact ⟨hm.bears hb.toBears, hi ▸ h.make hm hb.toBears hfree ho⟩
  | enroll n o =>
    have ho := h.expects i ⟨o, .klass⟩ (hi ▸ List.mem_cons_self)
    exact ⟨hm.enroll n ho.isOf ho.unlisted, h.settle hi fun d hd hne => hd.enroll n hne⟩
  | keep text b =>
    exact ⟨⟨hm.mirrors, hm.inverse⟩, h.settle hi fun d hd _ => ⟨hd.isOf, hd.unlisted⟩⟩

theorem leaves_pass (x : Sign) (m : Machine) : m.Leaves (m.pass x) := by
  cases x with
  | noted e => exact leaves_note e m
  | _ => exact .refl m

end Machine

theorem Blocker.leaves_attempt {b : Blocker} {m m' : Machine} {w : Wake}
    (h : b.attempt m = some (w, m')) : m.Leaves m' := by
  by_cases hb : b.IsMild
  · exact (mild_attempt hb h).toLeaves
  · cases b with
    | machineLock t =>
      obtain ⟨m1, h1, h2⟩ := Option.map_eq_some_iff.1 h
      cases h2
      exact Machine.leaves_lock? h1
    | _ => exact absurd trivial hb

theorem Prog.Raises.moves {Q : α → Prop} {p q : Prog α} {kept l : List Newborn} {i : Nat}
    {s s' : Scene} (h : p.Raises i Q kept l) (hm : p.Moves i s q s') (hs : s.machine.Orderly) :
    s.machine.Respects i s'.machine ∧ ∃ l1 l2, l1 <:+ l ∧ s.machine.Raises l1 s'.machine l2 ∧
      q.Raises i Q kept l2 := by
  cases hm with
  | step f next => exact h s.machine hs
  | sign x next =>
    have hx := Machine.leaves_pass x s.machine
    exact ⟨hx.respects hs i, l, l, List.suffix_rfl, .leave hx.toRetains, h⟩
  | wait next ha =>
    have hx := Blocker.leaves_attempt ha
    exact ⟨hx.respects hs i, l, l, List.suffix_rfl, .leave hx.toRetains, h _⟩

end BytecodeMachine
