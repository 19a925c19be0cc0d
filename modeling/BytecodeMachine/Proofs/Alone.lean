import BytecodeMachine.Proofs.Interleaving

namespace BytecodeMachine

variable {α β : Type} {i : Nat}

namespace Prog

abbrev Runs (i : Nat) : Prog α × Scene → Prog α × Scene → Prop :=
  Relation.ReflTransGen fun a b => a.1.Moves i a.2 b.1 b.2

def Ends (i : Nat) (Q : α → Scene → Prop) : Prog α → Scene → Prop
  | .done a, s => Q a s
  | .step f next, s => (next (f s.machine).1).Ends i Q (s.become (f s.machine).2)
  | .sign x next, s => next.Ends i Q (s.pass i x)
  | .wait b next, s =>
      ∃ w m, b.attempt s.machine = some (w, m) ∧ (next w).Ends i Q (s.become m)
  | .starved, _ => False

variable {s s' : Scene}

theorem Ends.mono {Q Q' : α → Scene → Prop} {p : Prog α} (h : p.Ends i Q s)
    (hq : ∀ a s, Q a s → Q' a s) : p.Ends i Q' s := by
  induction p generalizing s with
  | done a => exact hq a s h
  | step f next ih => exact ih _ h
  | sign x next ih => exact ih h
  | wait b next ih =>
    obtain ⟨w, m, ha, h⟩ := h
    exact ⟨w, m, ha, ih w h⟩
  | starved => exact h

theorem ends_bind {Q : β → Scene → Prop} {p : Prog α} {f : α → Prog β} :
    (p >>= f).Ends i Q s ↔ p.Ends i (fun a s' => (f a).Ends i Q s') s := by
  change (p.bind f).Ends i Q s ↔ _
  induction p generalizing s with
  | done a => exact Iff.rfl
  | step g next ih => simp only [bind, Ends, ih]
  | sign x next ih => simp only [bind, Ends, ih]
  | wait b next ih => simp only [bind, Ends, ih]
  | starved => exact Iff.rfl

theorem ends_iff_of_moves {Q : α → Scene → Prop} {p q : Prog α} (h : p.Moves i s q s') :
    p.Ends i Q s ↔ q.Ends i Q s' := by
  cases h with
  | step f next => exact Iff.rfl
  | sign x next => exact Iff.rfl
  | wait next ha =>
    constructor
    · rintro ⟨w, m, ha', h⟩
      obtain ⟨rfl, rfl⟩ := Prod.mk.inj (Option.some.inj (ha.symm.trans ha'))
      exact h
    · intro h
      exact ⟨_, _, ha, h⟩

theorem ends_iff_runs {Q : α → Scene → Prop} {p : Prog α} :
    p.Ends i Q s ↔ ∃ a s', Runs i (p, s) (.done a, s') ∧ Q a s' := by
  constructor
  · intro h
    induction p generalizing s with
    | done a => exact ⟨a, s, .refl, h⟩
    | step f next ih =>
      obtain ⟨a, s', hr, hq⟩ := ih _ h
      exact ⟨a, s', .head (.step f next s) hr, hq⟩
    | sign x next ih =>
      obtain ⟨a, s', hr, hq⟩ := ih h
      exact ⟨a, s', .head (.sign x next s) hr, hq⟩
    | wait b next ih =>
      obtain ⟨w, m, ha, h⟩ := h
      obtain ⟨a, s', hr, hq⟩ := ih w h
      exact ⟨a, s', .head (.wait next ha) hr, hq⟩
    | starved => exact h.elim
  · rintro ⟨a, s', hr, hq⟩
    generalize hc : (p, s) = c at hr
    induction hr using Relation.ReflTransGen.head_induction_on generalizing p s with
    | refl =>
      cases hc
      exact hq
    | head hm _ ih =>
      subst hc
      exact (ends_iff_of_moves hm).2 (ih rfl)

theorem Ends.and {Q Q' : α → Scene → Prop} {p : Prog α} (h : p.Ends i Q s)
    (h' : p.Ends i Q' s) : p.Ends i (fun a s => Q a s ∧ Q' a s) s := by
  induction p generalizing s with
  | done a => exact ⟨h, h'⟩
  | step f next ih => exact ih _ h h'
  | sign x next ih => exact ih h h'
  | wait b next ih =>
    obtain ⟨w, m, ha, h⟩ := h
    obtain ⟨w', m', ha', h'⟩ := h'
    obtain ⟨rfl, rfl⟩ := Prod.mk.inj (Option.some.inj (ha.symm.trans ha'))
    exact ⟨w, m, ha, ih w h h'⟩
  | starved => exact h

-- So many moves, or as many as there are. Unlike `Ends` they can be computed.
def iterate (i : Nat) : Nat → Prog α × Scene → Prog α × Scene
  | n + 1, (.step f next, s) => iterate i n (next (f s.machine).1, s.become (f s.machine).2)
  | n + 1, (.sign x next, s) => iterate i n (next, s.pass i x)
  | n + 1, (.wait b next, s) =>
      match b.attempt s.machine with
      | some (w, m) => iterate i n (next w, s.become m)
      | none => (.wait b next, s)
  | _, c => c

theorem runs_iterate (n : Nat) (c : Prog α × Scene) : Runs i c (iterate i n c) := by
  induction n generalizing c with
  | zero => exact .refl
  | succ n ih =>
    obtain ⟨p, s⟩ := c
    cases p with
    | done a => exact .refl
    | step f next => exact .head (.step f next s) (ih _)
    | sign x next => exact .head (.sign x next s) (ih _)
    | wait b next =>
      rw [iterate]
      split
      · rename_i w m ha
        exact .head (.wait next ha) (ih _)
      · exact .refl
    | starved => exact .refl

theorem runs_of_step {β : Type} {f : Machine → β × Machine} {next : β → Prog α} {p q : Prog α} {b : β}
    {m : Machine} (n : Nat) (hp : p = .step f next) (hf : f s.machine = (b, m))
    (h : iterate i n (next b, s.become m) = (q, s')) : Runs i (p, s) (q, s') := by
  have hmoves : p.Moves i s (next b) (s.become m) := by
    rw [hp]
    simpa only [hf] using Moves.step (i := i) f next s
  exact .head hmoves (h ▸ runs_iterate n _)

theorem ends_of_iterate {Q : α → Scene → Prop} {p q : Prog α} {n : Nat}
    (h : iterate i n (p, s) = (q, s')) (hq : q.Ends i Q s') : p.Ends i Q s := by
  obtain ⟨a, s'', hr, hQ⟩ := ends_iff_runs.1 hq
  exact ends_iff_runs.2 ⟨a, s'', (h ▸ runs_iterate n (p, s)).trans hr, hQ⟩

theorem Ends.of_meets {k : Contract} {Q Q' : α → Scene → Prop} {p : Prog α}
    (hk : ∀ s, k.rely s s) (h : p.Meets k Q s) (he : p.Ends k.thread Q' s) :
    p.Ends k.thread Q s := by
  induction p generalizing s with
  | done a => exact h
  | step f next ih => exact ih _ (h s (hk s)).2 he
  | sign x next ih => exact ih (h s (hk s)).2 he
  | wait b next ih =>
    obtain ⟨w, m, ha, he⟩ := he
    exact ⟨w, m, ha, ih w (h s w m (hk s) ha).2 he⟩
  | starved => exact he

def IsPrompt : Prog α → Prop
  | .done _ => True
  | .step _ next => ∀ b, (next b).IsPrompt
  | .sign _ next => next.IsPrompt
  | .wait _ _ => False
  | .starved => False

theorem isPrompt_bind {p : Prog α} {f : α → Prog β} (hp : p.IsPrompt)
    (hf : ∀ a, (f a).IsPrompt) : (p >>= f).IsPrompt := by
  change (p.bind f).IsPrompt
  induction p with
  | done a => exact hf a
  | step g next ih => exact fun b => ih b (hp b)
  | sign x next ih => exact ih hp
  | wait b next ih => exact hp
  | starved => exact hp

theorem IsPrompt.ends {p : Prog α} (h : p.IsPrompt) : p.Ends i (fun _ _ => True) s := by
  induction p generalizing s with
  | done a => trivial
  | step f next ih => exact ih _ (h _)
  | sign x next ih => exact ih h
  | wait b next ih => exact h.elim
  | starved => exact h

end Prog

end BytecodeMachine
