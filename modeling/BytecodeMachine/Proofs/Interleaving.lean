import BytecodeMachine.Proofs.Contract
import Mathlib.Logic.Function.Basic
import Mathlib.Logic.Relation

namespace BytecodeMachine

theorem update_cases {ι β : Type*} [DecidableEq ι] {P : β → Prop} {f : ι → β} {i j : ι} {x : β}
    (h : P (Function.update f i x j)) : j = i ∧ P x ∨ j ≠ i ∧ P (f j) := by
  rw [Function.update_apply] at h
  split at h
  · exact .inl ⟨‹_›, h⟩
  · exact .inr ⟨‹_›, h⟩

variable {α : Type}

inductive Prog.Moves (i : Nat) : Prog α → Scene → Prog α → Scene → Prop
  | step {β : Type} (f : Machine → β × Machine) (next : β → Prog α) (s : Scene) :
      Moves i (.step f next) s (next (f s.machine).1) (s.become (f s.machine).2)
  | sign (x : Sign) (next : Prog α) (s : Scene) : Moves i (.sign x next) s next (s.pass i x)
  | wait {b : Blocker} (next : Wake → Prog α) {s : Scene} {w : Wake} {m : Machine}
      (h : b.attempt s.machine = some (w, m)) : Moves i (.wait b next) s (next w) (s.become m)

theorem Prog.Moves.passed {i : Nat} {p q : Prog α} {s s' : Scene} (h : p.Moves i s q s') :
    s'.passed = s.passed ∨ ∃ x, s'.passed = (i, x) :: s.passed := by
  cases h with
  | step => exact .inl rfl
  | sign x => exact .inr ⟨x, rfl⟩
  | wait => exact .inl rfl

theorem Prog.advance_wait {b : Blocker} (hb : b ≠ .turn) (next : Wake → Prog α) (m : Machine) :
    (Prog.wait b next).advance m = match b.attempt m with
      | some (w, m) => (next w).advance m
      | none => .blocked b m fun w m => (next w).advance m := by
  cases ha : b.attempt m <;> cases b with
  | turn => exact absurd rfl hb
  | _ => simp only [advance, ha]

theorem Prog.advance_moves (i : Nat) (p : Prog α) (s : Scene) :
    ∃ q s', Relation.ReflTransGen
        (fun a b : Prog α × Scene => a.1.Moves i a.2 b.1 b.2) (p, s) (q, s') ∧
      match p.advance s.machine with
      | .done a m => q = .done a ∧ s'.machine = m
      | .blocked b m resume =>
          ∃ next, q = .wait b next ∧ s'.machine = m ∧ resume = fun w m => (next w).advance m
      | .starved => q = .starved := by
  induction p generalizing s with
  | done a => exact ⟨_, _, .refl, rfl, rfl⟩
  | step f next ih =>
    obtain ⟨q, s', hr, h⟩ := ih (f s.machine).1 (s.become (f s.machine).2)
    exact ⟨q, s', .head (.step f next s) hr, h⟩
  | sign x next ih =>
    obtain ⟨q, s', hr, h⟩ := ih (s.pass i x)
    exact ⟨q, s', .head (.sign x next s) hr, h⟩
  | wait b next ih =>
    by_cases hb : b = .turn
    · subst hb
      exact ⟨_, s, .refl, next, rfl, rfl, rfl⟩
    · rw [advance_wait hb]
      cases ha : b.attempt s.machine with
      | none => exact ⟨_, s, .refl, next, rfl, rfl, rfl⟩
      | some r =>
        obtain ⟨q, s', hr, h⟩ := ih r.1 (s.become r.2)
        exact ⟨q, s', .head (.wait next ha) hr, h⟩
  | starved => exact ⟨_, _, .refl, rfl⟩

abbrev Pool (α : Type) := Nat → Prog α

inductive Pool.Step (outside : Machine → Machine → Prop) :
    Pool α × Scene → Pool α × Scene → Prop
  | thread {p : Pool α} {s s' : Scene} {q : Prog α} (i : Nat) (h : (p i).Moves i s q s') :
      Step outside (p, s) (Function.update p i q, s')
  | outside {p : Pool α} {s : Scene} {m : Machine} (h : outside s.machine m) :
      Step outside (p, s) (p, s.become m)

abbrev Pool.Run (outside : Machine → Machine → Prop) :
    Pool α × Scene → Pool α × Scene → Prop :=
  Relation.ReflTransGen (Pool.Step outside)

theorem Pool.run_of_moves {outside : Machine → Machine → Prop} {p : Pool α} {i : Nat} {s : Scene}
    {c : Prog α × Scene} (h : Relation.ReflTransGen
      (fun a b : Prog α × Scene => a.1.Moves i a.2 b.1 b.2) (p i, s) c) :
    Pool.Run outside (p, s) (Function.update p i c.1, c.2) := by
  induction h with
  | refl => simpa using Relation.ReflTransGen.refl
  | @tail b c _ hm ih =>
    have hb : Function.update p i b.1 i = b.1 := Function.update_self ..
    have hs : Pool.Step outside (Function.update p i b.1, b.2)
        (Function.update (Function.update p i b.1) i c.1, c.2) := .thread i (hb.symm ▸ hm)
    rw [Function.update_idem] at hs
    exact ih.tail hs

structure Contract.Family (k : Nat → Contract) : Prop where
  thread : ∀ i, (k i).thread = i
  refl : ∀ i s, (k i).rely s s
  trans : ∀ i s1 s2 s3, (k i).rely s1 s2 → (k i).rely s2 s3 → (k i).rely s1 s3
  compatible : ∀ i j s s', i ≠ j → (k i).guarantee s s' → (k j).rely s s'

def Prog.Safe (k : Contract) (p : Prog α) (s : Scene) : Prop :=
  p.Meets k (fun _ _ => True) s

namespace Contract.Family

variable {k : Nat → Contract} {i : Nat} {s s' : Scene}

theorem meets_stable (hk : Family k) {Q : α → Scene → Prop} (hq : ∀ a, Q a s → Q a s')
    {p : Prog α} (h : p.Meets (k i) Q s) (hr : (k i).rely s s') : p.Meets (k i) Q s' := by
  cases p with
  | done a => exact hq a h
  | step f next => exact fun s'' h' => h s'' (hk.trans i s s' s'' hr h')
  | sign x next => exact fun s'' h' => h s'' (hk.trans i s s' s'' hr h')
  | wait b next => exact fun s'' w m h' => h s'' w m (hk.trans i s s' s'' hr h')
  | starved => trivial

theorem meets_moves (hk : Family k) {Q : α → Scene → Prop} {p q : Prog α}
    (h : p.Meets (k i) Q s) (hm : p.Moves i s q s') :
    (k i).guarantee s s' ∧ q.Meets (k i) Q s' := by
  cases hm with
  | step f next => exact h s (hk.refl i s)
  | sign x next =>
    have := h s (hk.refl i s)
    rwa [hk.thread i] at this
  | wait next ha => exact h s _ _ (hk.refl i s) ha

theorem stable (hk : Family k) {p : Prog α} (h : p.Safe (k i) s) (hr : (k i).rely s s') :
    p.Safe (k i) s' :=
  hk.meets_stable (fun _ _ => trivial) h hr

theorem moves (hk : Family k) {p q : Prog α} (h : p.Safe (k i) s) (hm : p.Moves i s q s') :
    (k i).guarantee s s' ∧ q.Safe (k i) s' :=
  hk.meets_moves h hm

theorem step (hk : Family k) {outside : Machine → Machine → Prop}
    (ho : ∀ i s m, outside s.machine m → (k i).rely s (s.become m)) {c c' : Pool α × Scene}
    (h : ∀ i, (c.1 i).Safe (k i) c.2) (hs : Pool.Step outside c c') (i : Nat) :
    (c'.1 i).Safe (k i) c'.2 := by
  cases hs with
  | outside hm => exact hk.stable (h i) (ho i _ _ hm)
  | @thread p s s' q j hm =>
    have hj := hk.moves (h j) hm
    by_cases hij : i = j
    · subst hij
      simpa using hj.2
    · simp only [Function.update_of_ne hij]
      exact hk.stable (h i) (hk.compatible j i s s' (Ne.symm hij) hj.1)

end Contract.Family

end BytecodeMachine
