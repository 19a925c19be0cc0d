import BytecodeMachine.Proofs.Loading.History
import Mathlib.Logic.Relation

namespace BytecodeMachine.ClassTable

open Relation

variable {libraries : List Library} {table : ClassTable} {n m : ClassName} {c k : Class}

theorem sizeOf_lt_of_transGen (h : TransGen Class.Holds c k) :
    sizeOf k < sizeOf c := by
  induction h with
  | single hk => exact Class.sizeOf_lt_of_mem_linked hk
  | tail _ hk ih => exact Nat.lt_trans (Class.sizeOf_lt_of_mem_linked hk) ih

theorem Closed.reachable (h : Closed libraries table) (hc : table.get? c.name = some c)
    (hk : ReflTransGen Class.Holds c k) : table.get? k.name = some k := by
  induction hk with
  | refl => exact hc
  | tail _ hk ih => exact h.linked ih hk

-- Links are declared by name, and each leads to a smaller record.
theorem Closed.exists_of_transGen_declared (h : Closed libraries table)
    (hc : table.get? n = some c)
    (hm : TransGen (Declares libraries) n m) :
    ∃ k, table.get? m = some k ∧ sizeOf k < sizeOf c := by
  induction hm with
  | single hm =>
    obtain ⟨k, hk, hget⟩ := h.exists_of_mem_declared hc hm
    exact ⟨k, hget, Class.sizeOf_lt_of_mem_linked hk⟩
  | tail _ hm ih =>
    obtain ⟨j, hj, hlt⟩ := ih
    obtain ⟨k, hk, hget⟩ := h.exists_of_mem_declared hj hm
    exact ⟨k, hget, Nat.lt_trans (Class.sizeOf_lt_of_mem_linked hk) hlt⟩

theorem Closed.get?_of_cycle (h : Closed libraries table)
    (hn : TransGen (Declares libraries) n n) : table.get? n = none := by
  cases hc : table.get? n with
  | none => rfl
  | some c =>
    obtain ⟨k, hk, hlt⟩ := h.exists_of_transGen_declared hc hn
    cases hc.symm.trans hk
    exact absurd hlt (Nat.lt_irrefl _)

theorem loading_ends_and_rejects_cycles (libraries : List Library) (names : List ClassName) :
    (∀ other pending n k, height libraries pending n < k →
      (fun self => loadBy self libraries)^[k] other pending n = load libraries pending n) ∧
    (∀ n c, (after libraries names).get? n = some c →
      ∀ k, TransGen Class.Holds c k → k.name ≠ n) ∧
    ∀ n, TransGen (Declares libraries) n n →
      (∃ e, (load libraries [] n (after libraries names)).1 = .error e) ∧
      ∀ m, ReflTransGen (Declares libraries) n m →
        ReflTransGen (Declares libraries) m n →
        (after libraries names).get? m = none ∧
          (load libraries [] n (after libraries names)).2.get? m = none := by
  have h := (settled_after libraries names).closed
  refine ⟨fun other pending n k hk => iterate_loadBy other hk, fun n c hc k hk he => ?_,
    fun n hn => ?_⟩
  · have hlt := sizeOf_lt_of_transGen hk
    have hsame := h.reachable (h.name hc ▸ hc) hk.to_reflTransGen
    rw [he, hc] at hsame
    cases hsame
    exact Nat.lt_irrefl _ hlt
  · have hnext := (load_extends libraries [] n (after libraries names)).closed h
    constructor
    · cases hr : (load libraries [] n (after libraries names)).1 with
      | error e => exact ⟨e, rfl⟩
      | ok c =>
        have hget := get?_of_load (Prod.ext hr rfl)
        cases hget.symm.trans (hnext.get?_of_cycle hn)
    · intro m hnm hmn
      have hm : TransGen (Declares libraries) m m :=
        (TransGen.trans_right hmn hn).trans_left hnm
      exact ⟨h.get?_of_cycle hm, hnext.get?_of_cycle hm⟩

def circle : List Library :=
  [.ofClasses "circle" [CoreLibrary.klass ⟨"t/A"⟩ ⟨"[Lt/B;"⟩ .plain [] [] [],
    CoreLibrary.klass ⟨"t/B"⟩ ⟨"t/A"⟩ .plain [] [] []] []]

theorem loading_ends_and_rejects_cycles_through_array :
    (∃ e, (load circle [] ⟨"t/A"⟩ (after circle [⟨"t/B"⟩])).1 = .error e) ∧
      (load circle [] ⟨"t/A"⟩ (after circle [⟨"t/B"⟩])).2.get? ⟨"[Lt/B;"⟩ = none := by
  have harray : ⟨"[Lt/B;"⟩ ∈ declared circle ⟨"t/A"⟩ := by decide +kernel
  have hcomponent : ⟨"t/B"⟩ ∈ declared circle ⟨"[Lt/B;"⟩ := by decide +kernel
  have hclass : ⟨"t/A"⟩ ∈ declared circle ⟨"t/B"⟩ := by decide +kernel
  have hback : TransGen (Declares circle) ⟨"[Lt/B;"⟩ ⟨"t/A"⟩ := .tail (.single hcomponent) hclass
  obtain ⟨-, -, hcycle⟩ := loading_ends_and_rejects_cycles circle [⟨"t/B"⟩]
  obtain ⟨herror, hnone⟩ := hcycle ⟨"t/A"⟩ (.head harray hback)
  exact ⟨herror, (hnone ⟨"[Lt/B;"⟩ (.single harray) hback.to_reflTransGen).2⟩

end BytecodeMachine.ClassTable
