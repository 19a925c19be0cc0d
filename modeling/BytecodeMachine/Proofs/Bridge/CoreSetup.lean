import BytecodeMachine.Engine
import BytecodeMachine.Proofs.Bridge.Standing

namespace BytecodeMachine.Exec

open CoreLibrary

variable {i : Nat} {t : Thread} {s : Scene} {m : Machine} {e : Engine} {c : Class}

def SetsUp (e : Engine) (c : Class) : Prop :=
  ∀ (i : Nat) (t : Thread) (s : Scene), s.machine.Serves t.id →
    (e.setUp c).Gives i t (fun _ m => s.machine.Prepares t.id m) s

theorem gives_seed {fields : List Field} (h : ∀ f ∈ fields, f.isStatic = false) :
    (seed e fields).Gives i t (fun _ m => m = s.machine) s := by
  induction fields with
  | nil => exact gives_pure rfl
  | cons f rest ih =>
    obtain ⟨hf, hrest⟩ := List.forall_mem_cons.1 h
    simp only [seed, hf, Bool.false_eq_true, if_false]
    exact ih hrest

theorem gives_setUpAll {cs : List Class} (h : ∀ c ∈ cs, SetsUp e c)
    (hs : s.machine.Serves t.id) :
    (setUpAll e cs).Gives i t (fun _ m => s.machine.Prepares t.id m) s := by
  induction cs generalizing s with
  | nil => exact gives_pure (.refl _)
  | cons c rest ih =>
    obtain ⟨hc, hrest⟩ := List.forall_mem_cons.1 h
    refine (hc i t s hs).bind fun _ s1 h1 => ?_
    exact (ih hrest (hs.continue h1.toContinues)).mono fun _ m h2 => h1.trans h2

def IsBare (c : Class) : Prop :=
  (c.fields.all (!·.isStatic) && (c.declaredMethod? .staticInitializer (.void [])).isNone) = true

theorem IsBare.fields (h : IsBare c) : ∀ f ∈ c.fields, f.isStatic = false := by
  simp only [IsBare, Bool.and_eq_true, List.all_eq_true, Bool.not_eq_true'] at h
  exact h.1

theorem IsBare.initializer (h : IsBare c) :
    c.declaredMethod? .staticInitializer (.void []) = none := by
  simp only [IsBare, Bool.and_eq_true, Option.isNone_iff_eq_none] at h
  exact h.2

section Setup

variable (hc : IsBare c) (habove : ∀ d ∈ c.superclass.toList ++ c.interfaces, SetsUp e d)
  (hs : s.machine.Serves t.id)

include hc habove hs

theorem gives_runSetup : (runSetup e c).Gives i t (fun _ m => s.machine.Prepares t.id m) s := by
  refine (gives_seed hc.fields).bind fun _ s1 h1 => ?_
  rw [← h1] at hs ⊢
  refine (gives_setUpAll habove hs).bind fun _ s2 h2 => ?_
  simp only [hc.initializer]
  exact gives_pure h2

theorem gives_setUpOnce : (setUpOnce e c).Gives i t (fun _ m => s.machine.Prepares t.id m) s := by
  refine (gives_note _).bind fun _ s1 h1 => (gives_update _).bind fun _ s2 h2 => ?_
  have h3 : s.machine.Prepares t.id s2.machine := by
    rw [h2, h1]
    exact (Machine.prepares_note _ _).trans (Machine.prepares_setInitState _ _ _)
  refine (gives_runSetup hc habove (hs.continue h3.toContinues)).attempt.bind ?_
  rintro r s4 ⟨a, rfl, h4⟩
  refine (gives_update _).bind fun _ s5 h5 => (gives_note _).bind fun _ s6 h6 => gives_pure ?_
  rw [h6, h5]
  exact ((h3.trans h4).trans (Machine.prepares_setInitState c.name .initialized _)).trans
    (Machine.prepares_note _ _)

theorem gives_setUp : (setUp e c).Gives i t (fun _ m => s.machine.Prepares t.id m) s := by
  have hinner : Gives (do
      if (← read (·.initState c.name)) ≠ .initialized then
        locked do
          if (← read (·.initState c.name)) = .uninitialized then
            setUpOnce e c) i t (fun _ m => s.machine.Prepares t.id m) s := by
    refine gives_read.bind fun state s1 h1 => ?_
    rw [← h1.2] at hs ⊢
    split
    · refine gives_locked hs fun m2 h2 => gives_read.bind fun state s3 h3 => ?_
      replace h2 : s1.machine.Prepares t.id s3.machine := h3.2 ▸ h2
      split
      · refine (gives_setUpOnce hc habove (hs.continue h2.toContinues)).mono fun _ m4 h4 => ?_
        exact (h2.trans h4).trans (Machine.prepares_unlock m4)
      · exact gives_pure (h2.trans (Machine.prepares_unlock s3.machine))
    · exact gives_pure (.refl _)
  refine ends_ending.2 (Ends.mono hinner ?_)
  rintro r t' s1 ⟨rfl, a, rfl, h1⟩
  exact ⟨rfl, a, rfl, h1⟩

end Setup

theorem setsUp_bounded {n : Nat} (hc : IsBare c)
    (habove : ∀ d ∈ c.superclass.toList ++ c.interfaces, SetsUp (.bounded n) d) :
    SetsUp (.bounded (n + 1)) c :=
  fun _ _ _ hs => gives_setUp hc habove hs

section Records

variable (n : Nat)

theorem setsUp_object : SetsUp (.bounded (n + 1)) objectRecord :=
  setsUp_bounded rfl (List.forall_mem_nil _)

theorem setsUp_serializable : SetsUp (.bounded (n + 2)) serializableRecord :=
  setsUp_bounded rfl (List.forall_mem_singleton.2 (setsUp_object n))

theorem setsUp_string : SetsUp (.bounded (n + 3)) stringRecord :=
  setsUp_bounded rfl (List.forall_mem_cons.2 ⟨setsUp_object (n + 1),
    List.forall_mem_singleton.2 (setsUp_serializable n)⟩)

theorem setsUp_klass : SetsUp (.bounded (n + 2)) klassRecord :=
  setsUp_bounded rfl (List.forall_mem_singleton.2 (setsUp_object n))

theorem setsUp_number : SetsUp (.bounded (n + 3)) numberRecord :=
  setsUp_bounded rfl (List.forall_mem_cons.2 ⟨setsUp_object (n + 1),
    List.forall_mem_singleton.2 (setsUp_serializable n)⟩)

theorem isBare_box : ∀ e ∈ boxes, IsBare (boxRecord e.1 e.2.1 e.2.2.1 e.2.2.2) := by
  intro e he
  simp only [boxes, List.mem_cons, List.not_mem_nil, or_false] at he
  rcases he with rfl | rfl | rfl | rfl | rfl | rfl | rfl | rfl
  all_goals rfl

theorem setsUp_box {e : ClassName × ClassName × BaseType × String} (he : e ∈ boxes) :
    SetsUp (.bounded (n + 4)) (boxRecord e.1 e.2.1 e.2.2.1 e.2.2.2) := by
  refine setsUp_bounded (isBare_box e he) (List.forall_mem_singleton.2 ?_)
  split
  · exact setsUp_number n
  · exact setsUp_object (n + 2)

end Records

end BytecodeMachine.Exec
