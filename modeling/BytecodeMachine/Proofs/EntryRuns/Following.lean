import BytecodeMachine.Entry
import BytecodeMachine.Proofs.Construction.Code

namespace BytecodeMachine.Exec

variable {α β : Type} {e : Engine}

def pursue (e : Engine) (trap : Trap) : Exec (Option ObjectId) := do
  match ← attempt (handleTrap.thrown e trap) with
  | .error other =>
      abort other 0
      pure none
  | .ok o =>
      match ← attempt (dispatch e o) with
      | .error other =>
          abort other 0
          pure none
      | .ok () => do
          let t ← get
          pure (if t.frames.isEmpty then some o else none)

def stepOn (e : Engine) : Exec (Option ObjectId) := do
  match ← attempt (step e) with
  | .ok () => pure none
  | .error trap => do
      pass (.trapped trap)
      pursue e trap

def follow : Nat → Exec (Option ObjectId)
  | 0 => lift .starve
  | bound + 1 => do
      if (← get).isWithin 0 then
        pure none
      else
        turn
        if ← shouldTerminate then
          abort .exit 0
          pure none
        else
          let left ← stepOn (.bounded bound)
          let later ← follow bound
          pure (later.or left)

-- An object that is thrown before there is any frame has left all frames, too.
def followEntry (bound : Nat) (p : EntryPoint) (arguments : List String) :
    Exec (Option ObjectId) := do
  match ← attempt (do enterEntry (.bounded bound) p arguments; follow bound) with
  | .ok left => pure left
  | .error trap => do
      let o ← handleTrap.thrown (.bounded bound) trap
      uncaught (.bounded bound) o
      pure (some o)

def followCall (bound : Nat) (p : EntryPoint) (arguments : List String) :
    Exec (Except Trap (Option ObjectId) × Except RunError Unit) := do
  let ending ← attempt (followEntry bound p arguments)
  let result ← ended (ending.map fun _ => ())
  pure (ending, result)

section Discarding

theorem discard_eq (x : Exec α) : discard x = (do let _ ← x; pure ()) := by
  rw [Functor.discard, map_const, Function.comp_apply, map_eq_pure_bind]

theorem discard_bind (x : Exec α) (f : α → Exec β) :
    discard (x >>= f) = (do let a ← x; discard (f a)) := by
  simp only [discard_eq, bind_assoc]

theorem discard_then (x : Exec Unit) (a : α) : discard (do x; pure a) = x :=
  (discard_bind _ _).trans (bind_pure x)

theorem bind_discard (x : Exec α) (f : Unit → Exec β) :
    (discard x >>= f) = (do let _ ← x; f ()) := by
  simp only [discard_eq, bind_assoc, pure_bind]

theorem attempt_discard (x : Exec α) :
    attempt (discard x) = (do let r ← attempt x; pure (r.map fun _ => ())) := by
  funext t
  rw [discard_eq]
  refine (Prog.bind_assoc _ _ _).trans (.trans ?_ (Prog.bind_assoc _ _ _).symm)
  refine bind_congr (x := x.on t) ?_
  rintro ⟨r, t'⟩
  cases r <;> rfl

theorem attempt_attempt_bind (x : Exec α) (f : Except Trap α → Exec β) :
    attempt (attempt x >>= f) = (do let r ← attempt x; attempt (f r)) := by
  funext t
  refine (Prog.bind_assoc _ _ _).trans ((Prog.bind_assoc _ _ _).trans ?_)
  exact .symm (Prog.bind_assoc _ _ _)

theorem discard_pursue (trap : Trap) : discard (pursue e trap) = handleTrap e trap 0 := by
  unfold pursue handleTrap
  rw [discard_bind]
  refine bind_congr fun r => ?_
  rcases r with other | o
  · exact discard_then _ _
  · rw [discard_bind]
    refine bind_congr fun r => ?_
    rcases r with other | ⟨⟩
    · exact discard_then _ _
    · rfl

theorem discard_follow (bound : Nat) : discard (follow bound) = (Engine.bounded bound).run 0 := by
  induction bound with
  | zero => rfl
  | succ bound ih =>
    have again (left : Option ObjectId) : discard (do
        let later ← follow bound
        pure (later.or left)) = (Engine.bounded bound).run 0 := by
      rw [← ih, discard_eq, discard_eq, bind_assoc]
      rfl
    change _ = run (.bounded bound) 0
    unfold follow run
    rw [discard_bind]
    refine bind_congr fun t => ?_
    split
    · rfl
    · simp only [discard_bind]
      refine bind_congr fun _ => bind_congr fun stop => ?_
      cases stop with
      | true => exact discard_then _ _
      | false =>
        rw [if_neg Bool.false_ne_true, if_neg Bool.false_ne_true, discard_bind, stepOn, bind_assoc]
        refine bind_congr fun r => ?_
        rcases r with trap | ⟨⟩
        · refine (bind_assoc _ _ _).trans (bind_congr fun _ => ?_)
          rw [← discard_pursue, bind_discard]
          exact bind_congr again
        · exact again none

theorem discard_followEntry (bound : Nat) (p : EntryPoint) (arguments : List String) :
    discard (followEntry bound p arguments) = (do
      let outcome ← attempt do
        enterEntry (.bounded bound) p arguments
        (Engine.bounded bound).run 0
      settle (.bounded bound) outcome) := by
  rw [← discard_follow, ← discard_bind, attempt_discard, followEntry, discard_bind, bind_assoc]
  refine bind_congr fun r => ?_
  rw [pure_bind]
  rcases r with trap | left
  · refine .trans ?_ (Reporting.settle_error trap).symm
    rw [discard_bind]
    exact bind_congr fun o => discard_then _ _
  · rfl

theorem map_followCall (bound : Nat) (p : EntryPoint) (arguments : List String) :
    Prod.snd <$> followCall bound p arguments = runEntry (.bounded bound) p arguments := by
  have settled : runEntry (.bounded bound) p arguments =
      (do ended (← attempt (discard (followEntry bound p arguments)))) := by
    rw [discard_followEntry, attempt_attempt_bind, bind_assoc]
    rfl
  rw [settled, attempt_discard, bind_assoc, followCall, map_bind]
  refine bind_congr fun ending => ?_
  rw [map_bind, pure_bind]
  exact bind_pure _

end Discarding

end BytecodeMachine.Exec
