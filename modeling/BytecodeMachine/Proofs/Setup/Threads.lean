import BytecodeMachine.Engine
import BytecodeMachine.Entry
import BytecodeMachine.Proofs.Setup.Constructors
import BytecodeMachine.Proofs.Setup.Once

namespace BytecodeMachine

variable {α β : Type}

namespace Exec

variable {e : Engine} {z : Realm} {known : Known}

theorem settling_fetch (he : e.Settled) : Settling z known fetch := by
  refine .bind .get fun t => ?_
  split
  · exact .fail _
  · split
    · exact .bind (.modify fun _ => rfl) fun _ => .throw _
    · split
      · exact .fail _
      · split
        · exact .fail _
        · rename_i a _ _ _ _
          have hw (steps : Nat) : Built e z .host known (fetch.warn a.method steps) := .warn _ _
          exact .bind (.modify fun _ => rfl) fun _ => .bind ((hw _).settling he) fun _ => .pure _

theorem Storing.settling (he : e.Settled) {r : Reach} {x : Exec α} (h : Storing e r x) :
    Settling .every [] x := by
  induction h with
  | built h => exact h.settling he
  | bind _ _ ihx ihf => exact .bind ihx ihf
  | store f v =>
    exact fun i t s ht hs => (setStatic_settles f v ht hs.coherent).mono fun _ _ _ h => h.1

theorem settling_step (he : e.Settled) : Settling .every [] (step e) := by
  refine .bind (settling_fetch he) fun ⟨m, pc, i⟩ => ?_
  exact .bind (.lift (Prog.isNeutral_pass rfl)) fun _ => (Storing.execute i).settling he

theorem Reporting.settling (he : e.Settled) {x : Exec α} (h : Reporting e x) :
    Settling .every [] x := by
  induction h with
  | built h => exact h.settling he
  | bind _ _ ihx ihf => exact .bind ihx ihf
  | forget => exact .modify fun _ => rfl
  | blame o => exact .modify fun _ => rfl

theorem settling_dispatch (he : e.Settled) (o : ObjectId) : Settling .every [] (dispatch e o) := by
  refine .bind .get fun t => ?_
  split
  · exact .fail _
  · split
    · exact .modify fun _ => rfl
    · have hc : Built e .every .host [] (classOf o) := .classOf o
      refine .bind (hc.settling he) fun c => ?_
      have hh (handlers : List Handler) : Built e .every .host [] (findHandler c handlers) :=
        .findHandler c handlers
      refine .bind ((hh _).settling he) fun found => ?_
      cases found with
      | some target =>
        exact .bind (.lift (Prog.isNeutral_pass rfl)) fun _ => .modify fun _ => rfl
      | none =>
        refine .bind (.modify fun _ => rfl) fun _ => ?_
        split
        · exact .bind (.modify fun _ => rfl) fun _ => (Reporting.uncaught o).settling he
        · exact .modify fun _ => rfl

theorem settling_handleTrap (he : e.Settled) (trap : Trap) (limit : Nat) :
    Settling .every [] (handleTrap e trap limit) := by
  have hb : Built e .every .host [] (handleTrap.thrown e trap) := .thrown trap
  refine .attempt_bind (hb.settling he) fun r => ?_
  cases r with
  | error other => exact settling_abort he other limit
  | ok o =>
    refine .attempt_bind (settling_dispatch he o) fun r => ?_
    cases r with
    | error other => exact settling_abort he other limit
    | ok _ => exact .pure ()

theorem settling_run (he : e.Settled) (limit : Nat) : Settling .every [] (run e limit) := by
  refine .bind .get fun t => ?_
  split
  · exact .pure ()
  · refine .bind (.lift Prog.isMild_turn.isNeutral) fun _ => ?_
    refine .bind (.bind .get fun t => .lift (Prog.isMild_read _).isNeutral) fun stop => ?_
    split
    · exact settling_abort he .exit limit
    · refine .attempt_bind (settling_step he) fun r => ?_
      cases r with
      | ok _ => exact he.run limit
      | error trap =>
        refine .bind (.lift (Prog.isNeutral_pass rfl)) fun _ => ?_
        exact .bind (settling_handleTrap he trap limit) fun _ => he.run limit

end Exec

theorem Engine.settled_bounded (bound : Nat) : (bounded bound).Settled := by
  induction bound with
  | zero =>
    constructor
    · exact fun _ _ _ _ _ _ _ _ _ _ => trivial
    · exact fun _ _ _ _ _ _ _ => trivial
    · exact fun _ _ _ _ _ _ => trivial
    · exact fun _ _ _ _ _ _ _ => trivial
  | succ bound ih =>
    constructor
    · exact fun z c i t s ht hs hc hz hnear => Exec.setUp_settles ih ht hs hc hz hnear
    · intro m arguments
      have hb : Exec.Built (bounded bound) .every .host [] (Exec.callNative (bounded bound) m arguments) :=
        .callNative m arguments
      exact hb.settling ih
    · exact fun limit => Exec.settling_run ih limit
    · exact fun limit i t s ht hs hf => Exec.run_constructs ih (balanced_bounded bound) ht hs hf

end BytecodeMachine
