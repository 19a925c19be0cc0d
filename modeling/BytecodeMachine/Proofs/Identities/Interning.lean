import BytecodeMachine.Proofs.Identities.Finding

namespace BytecodeMachine

namespace Machine

structure Interns (m : Machine) : Prop where
  injective : ∀ text text' o,
    m.interned.get? text = some o → m.interned.get? text' = some o → text = text'
  objects : ∀ text o, m.interned.get? text = some o → m.heap.get? o ≠ none

def Unkept (m : Machine) (r : Nat → List Newborn) : Prop :=
  ∀ i, ∀ b ∈ r i, ∀ text, m.interned.get? text ≠ some b.object

variable {m m' : Machine} {r : Nat → List Newborn} {i : Nat} {l l1 : List Newborn}

theorem Bears.ne_none (h : m.Bears m') {o : ObjectId} (ho : m.heap.get? o ≠ none) :
    m'.heap.get? o ≠ none := by
  obtain ⟨x, hx⟩ := Option.ne_none_iff_exists'.1 ho
  obtain ⟨x', hx', -⟩ := h.klass o x hx
  rw [hx']
  exact nofun

namespace Interns

theorem empty (h : m.interned = []) : m.Interns := by
  constructor
  · intro text text' o ho
    rw [h] at ho
    cases ho
  · intro text o ho
    rw [h] at ho
    cases ho

theorem retains (h : m.Interns) (hr : m.Retains m') : m'.Interns where
  injective text text' o := hr.interned ▸ h.injective text text' o
  objects text o ho := hr.ne_none (h.objects text o (hr.interned ▸ ho))

theorem keep (h : m.Interns) (text : String) {o : ObjectId} (ho : m.heap.get? o ≠ none)
    (hne : ∀ text, m.interned.get? text ≠ some o) : (m.keep text o).2.Interns := by
  have entry {text' : String} {p : ObjectId} (hp : (m.keep text o).2.interned.get? text' = some p) :
      m.interned.get? text' = some p ∨ text' = text ∧ p = o := by
    rw [interned_keep] at hp
    split at hp
    · rename_i ht
      subst ht
      cases hf : m.interned.get? text with
      | none =>
        rw [hf] at hp
        exact .inr ⟨rfl, (Option.some.inj hp).symm⟩
      | some q =>
        rw [hf] at hp
        exact .inl hp
    · exact .inl hp
  constructor
  · intro text1 text2 p h1 h2
    rcases entry h1 with old1 | ⟨rfl, rfl⟩
    · rcases entry h2 with old2 | ⟨rfl, rfl⟩
      · exact h.injective text1 text2 p old1 old2
      · exact absurd old1 (hne text1)
    · rcases entry h2 with old2 | ⟨rfl, -⟩
      · exact absurd old2 (hne text2)
      · rfl
  · intro text' p hp
    rcases entry hp with hp | ⟨-, rfl⟩
    · exact h.objects text' p hp
    · exact ho

theorem raises (h : m.Interns) (hu : m.Unkept r) (hh : m.InHands r) (hl : l1 <:+ r i)
    (hr : m.Raises l1 m' l) : m'.Interns ∧ m'.Unkept (Function.update r i l) := by
  have same {l2 : List Newborn} (h2 : l2 <:+ r i) (hi : m'.interned = m.interned) :
      m'.Unkept (Function.update r i l2) := by
    intro j d hd text
    rw [hi]
    rcases update_cases (P := (d ∈ ·)) hd with ⟨-, hd⟩ | ⟨-, hd⟩
    · exact hu i d (h2.subset hd) text
    · exact hu j d hd text
  cases hr with
  | leave hb => exact ⟨h.retains hb, same hl hb.interned⟩
  | @make _ b _ hb hfree ho =>
    refine ⟨h.retains hb, fun j d hd text => ?_⟩
    rw [hb.interned]
    rcases update_cases (P := (d ∈ ·)) hd with ⟨-, hd⟩ | ⟨-, hd⟩
    · rcases List.mem_cons.1 hd with rfl | hd
      · exact fun ht => h.objects text _ ht hfree
      · exact hu i d (hl.subset hd) text
    · exact hu j d hd text
  | enroll n o => exact ⟨⟨h.injective, h.objects⟩, same ((List.suffix_cons _ _).trans hl) rfl⟩
  | keep text b =>
    have hb := hl.subset List.mem_cons_self
    refine ⟨h.keep text (hh.expects i b hb).isOf.ne_none (hu i b hb), fun j d hd text' => ?_⟩
    have hr : d ∈ r j ∧ d.object ≠ b.object := by
      rcases update_cases (P := (d ∈ ·)) hd with ⟨rfl, own⟩ | ⟨hj, other⟩
      · have hnodup := (hh.nodup j).sublist (hl.sublist.map _)
        rw [List.map_cons, List.nodup_cons] at hnodup
        exact ⟨hl.subset (List.mem_cons_of_mem b own),
          fun he => hnodup.1 (he ▸ List.mem_map_of_mem own)⟩
      · exact ⟨other, hh.apart j i hj d other b hb⟩
    rw [interned_keep]
    split
    · cases hf : m.interned.get? text with
      | none => exact fun he => hr.2 (Option.some.inj he).symm
      | some q => exact fun he => hu j d hr.1 text (hf.trans he)
    · exact hu j d hr.1 text'

end Interns

end Machine

end BytecodeMachine
