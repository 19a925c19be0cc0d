import BytecodeMachine.Proofs.Completion

namespace BytecodeMachine

variable {κ α : Type}

structure Reply (κ α : Type) where
  thread : Nat
  call : κ
  since : Nat
  outcome : Except Trap α

structure OpenCall (κ α : Type) where
  call : κ
  since : Nat
  rest : Prog (Except Trap α × Thread)

structure Callers (κ α : Type) where
  pending : Nat → Option (OpenCall κ α)
  replies : List (Reply κ α)

namespace Callers

def idle : Callers κ α := ⟨fun _ => none, []⟩

def begin (c : Callers κ α) (i : Nat) (call : κ) (rest : Prog (Except Trap α × Thread)) :
    Callers κ α :=
  { c with pending := Function.update c.pending i (some ⟨call, c.replies.length, rest⟩) }

def goOn (c : Callers κ α) (i : Nat) (p : OpenCall κ α) (rest : Prog (Except Trap α × Thread)) :
    Callers κ α :=
  { c with pending := Function.update c.pending i (some { p with rest := rest }) }

def reply (c : Callers κ α) (i : Nat) (p : OpenCall κ α) (outcome : Except Trap α) : Callers κ α :=
  ⟨Function.update c.pending i none, c.replies ++ [⟨i, p.call, p.since, outcome⟩]⟩

section Pending

variable {c : Callers κ α} {i j : Nat} {k : κ} {p q : OpenCall κ α}
  {rest : Prog (Except Trap α × Thread)} {outcome : Except Trap α}

theorem eq_none_of_update {f : Nat → Option (OpenCall κ α)}
    (h : Function.update f i (some p) j = none) : f j = none := by
  rcases update_cases (P := (· = none)) h with ⟨-, hp⟩ | ⟨-, hf⟩
  · cases hp
  · exact hf

theorem pending_begin (h : (c.begin i k rest).pending j = some q) :
    j = i ∧ q = ⟨k, c.replies.length, rest⟩ ∨ j ≠ i ∧ c.pending j = some q :=
  (update_cases (P := (· = some q)) (f := c.pending) h).imp_left
    fun ⟨hj, hq⟩ => ⟨hj, (Option.some.inj hq).symm⟩

theorem pending_goOn (h : (c.goOn i p rest).pending j = some q) :
    j = i ∧ q = { p with rest := rest } ∨ j ≠ i ∧ c.pending j = some q :=
  (update_cases (P := (· = some q)) (f := c.pending) h).imp_left
    fun ⟨hj, hq⟩ => ⟨hj, (Option.some.inj hq).symm⟩

theorem pending_reply (h : (c.reply i p outcome).pending j = some q) :
    j ≠ i ∧ c.pending j = some q :=
  (update_cases (P := (· = some q)) (f := c.pending) h).resolve_left fun ⟨_, hq⟩ => nomatch hq

end Pending

inductive Step (serve : κ → Exec α) (outside : Machine → Machine → Prop) :
    Callers κ α × Scene → Callers κ α × Scene → Prop
  | call {c : Callers κ α} {s : Scene} (k : κ) (t : Thread) (h : c.pending t.id = none) :
      Step serve outside (c, s) (c.begin t.id k ((serve k).on t), s)
  | move {c : Callers κ α} {s s' : Scene} {p : OpenCall κ α}
      {q : Prog (Except Trap α × Thread)} (i : Nat) (h : c.pending i = some p)
      (hm : p.rest.Moves i s q s') : Step serve outside (c, s) (c.goOn i p q, s')
  | reply {c : Callers κ α} {s : Scene} {p : OpenCall κ α} {outcome : Except Trap α} {t : Thread}
      (i : Nat) (h : c.pending i = some p) (hr : p.rest = .done (outcome, t)) :
      Step serve outside (c, s) (c.reply i p outcome, s)
  | outside {c : Callers κ α} {s : Scene} {m : Machine} (h : outside s.machine m) :
      Step serve outside (c, s) (c, s.become m)

abbrev Run (serve : κ → Exec α) (outside : Machine → Machine → Prop) :
    Callers κ α × Scene → Callers κ α × Scene → Prop :=
  Relation.ReflTransGen (Step serve outside)

theorem run_of_runs {serve : κ → Exec α} {outside : Machine → Machine → Prop} {c : Callers κ α}
    {i : Nat} {k : κ} {p q : Prog (Except Trap α × Thread)} {s s' : Scene}
    (h : Prog.Runs i (p, s) (q, s')) :
    Run serve outside (c.begin i k p, s) (c.begin i k q, s') := by
  generalize hx : (q, s') = x at h
  induction h generalizing q s' with
  | refl =>
    cases hx
    exact .refl
  | @tail b _ _ hm ih =>
    subst hx
    refine (ih rfl).tail ?_
    have hgo : (c.begin i k b.1).goOn i ⟨k, c.replies.length, b.1⟩ q = c.begin i k q := by
      simp only [goOn, begin, Function.update_idem]
    rw [← hgo]
    exact .move i (Function.update_self ..) hm

-- A call that comes to its end by itself is one of a run.
theorem run_of_ends {serve : κ → Exec α} (outside : Machine → Machine → Prop) {c : Callers κ α}
    {k : κ} {t : Thread} {s : Scene} {Q : Exec.Post α} (hc : c.pending t.id = none)
    (h : (serve k).Ends t.id t Q s) : ∃ outcome t' s', Q outcome t' s' ∧
      Run serve outside (c, s)
        (⟨c.pending, c.replies ++ [⟨t.id, k, c.replies.length, outcome⟩]⟩, s') := by
  obtain ⟨⟨outcome, t'⟩, s', hr, hq⟩ := Prog.ends_iff_runs.1 h
  refine ⟨outcome, t', s', hq, .head (.call k t hc) (.tail (run_of_runs hr) ?_)⟩
  have hend : (c.begin t.id k (.done (outcome, t'))).reply t.id
      ⟨k, c.replies.length, .done (outcome, t')⟩ outcome =
        ⟨c.pending, c.replies ++ [⟨t.id, k, c.replies.length, outcome⟩]⟩ := by
    simp only [reply, begin, Function.update_idem, ← hc, Function.update_eq_self]
  rw [← hend]
  exact .reply t.id (Function.update_self ..) rfl

end Callers

end BytecodeMachine
