import BytecodeMachine.Thread.Branch

namespace BytecodeMachine.FrameM

variable {α β : Type}

def StackOnly (a : FrameM α) : Prop := ∀ f : Frame, ∃ stack, (a.run.run f).2 = { f with stack := stack }

structure Gentle (a : FrameM α) : Prop where
  activation : ∀ f : Frame, (a.run.run f).2.activation = f.activation
  failed : ∀ (f : Frame) (trap : Trap), (a.run.run f).1 = .error trap →
    ∃ stack, (a.run.run f).2 = { f with stack := stack }

theorem StackOnly.gentle {a : FrameM α} (h : a.StackOnly) : a.Gentle where
  activation f := by
    obtain ⟨stack, hs⟩ := h f
    rw [hs]
  failed f _ _ := h f

theorem run_bind (x : FrameM α) (g : α → FrameM β) (f : Frame) :
    (x >>= g).run.run f = match x.run.run f with
      | (.ok a, f) => (g a).run.run f
      | (.error trap, f) => (.error trap, f) := by
  simp only [bind, ExceptT.bind, ExceptT.mk, ExceptT.run, StateT.run, StateT.bind]
  rcases x f with ⟨r, f'⟩
  cases r <;> rfl

theorem run_popMany {f : Frame} {vs below : List Value} {count : Nat}
    (hs : f.stack = vs.reverse ++ below) (hc : vs.length = count) :
    (popMany count).run.run f = (.ok vs, { f with stack := below }) := by
  have hlen : vs.reverse.length = count := by simpa using hc
  unfold popMany
  rw [run_bind]
  change (if f.stack.length < count then _ else _ : FrameM (List Value)).run.run f = _
  rw [if_neg (by simp [hs, hc]), hs]
  change (Except.ok (List.take count (vs.reverse ++ below)).reverse,
    { f with stack := List.drop count (vs.reverse ++ below) }) = _
  rw [List.take_left' hlen, List.drop_left' hlen, List.reverse_reverse]

theorem StackOnly.bind {x : FrameM α} {g : α → FrameM β} (hx : x.StackOnly)
    (hg : ∀ a, (g a).StackOnly) : (x >>= g).StackOnly := by
  intro f
  obtain ⟨stack, hs⟩ := hx f
  rw [run_bind]
  rcases hr : x.run.run f with ⟨r, f'⟩
  rw [hr] at hs
  cases hs
  cases r with
  | ok a =>
    obtain ⟨stack', hs'⟩ := hg a { f with stack := stack }
    exact ⟨stack', hs'⟩
  | error trap => exact ⟨stack, rfl⟩

theorem StackOnly.bind_gentle {x : FrameM α} {g : α → FrameM β} (hx : x.StackOnly)
    (hg : ∀ a, (g a).Gentle) : (x >>= g).Gentle := by
  refine ⟨fun f => ?_, fun f trap => ?_⟩
  all_goals
    obtain ⟨stack, hs⟩ := hx f
    rw [run_bind]
    rcases hr : x.run.run f with ⟨r, f'⟩
    rw [hr] at hs
    cases hs
  · cases r with
    | ok a => exact (hg a).activation { f with stack := stack }
    | error trap => rfl
  · cases r with
    | ok a =>
      intro ht
      obtain ⟨stack', hs'⟩ := (hg a).failed { f with stack := stack } trap ht
      exact ⟨stack', hs'⟩
    | error trap => exact fun _ => ⟨stack, rfl⟩

theorem stackOnly_pure (a : α) : (pure a : FrameM α).StackOnly := fun f => ⟨f.stack, rfl⟩

theorem stackOnly_throw (trap : Trap) : (throw trap : FrameM α).StackOnly :=
  fun f => ⟨f.stack, rfl⟩

theorem stackOnly_fail (fault : Fault) : (fail fault : FrameM α).StackOnly := stackOnly_throw _

theorem stackOnly_get : (get : FrameM Frame).StackOnly := fun f => ⟨f.stack, rfl⟩

theorem stackOnly_ofExcept (x : Except Fault α) : (ofExcept x).StackOnly := by
  cases x with
  | ok a => exact stackOnly_pure a
  | error fault => exact stackOnly_fail fault

theorem stackOnly_raiseExcept (x : Except Cause α) : (raiseExcept x).StackOnly := by
  cases x with
  | ok a => exact stackOnly_pure a
  | error cause => exact stackOnly_throw _

theorem stackOnly_push (v : Value) : (push v).StackOnly := fun f => ⟨v :: f.stack, rfl⟩

theorem stackOnly_pushAll (vs : List Value) : (pushAll vs).StackOnly :=
  fun f => ⟨vs.reverse ++ f.stack, rfl⟩

theorem stackOnly_setStack (stack : List Value) :
    (modify fun f => { f with stack := stack } : FrameM PUnit).StackOnly := fun _ => ⟨stack, rfl⟩

theorem stackOnly_pop : pop.StackOnly := by
  refine stackOnly_get.bind fun f => ?_
  split
  · exact stackOnly_fail _
  · exact (stackOnly_setStack _).bind fun _ => stackOnly_pure _

theorem stackOnly_popInt : popInt.StackOnly := stackOnly_pop.bind fun _ => stackOnly_ofExcept _

theorem stackOnly_popLong : popLong.StackOnly := stackOnly_pop.bind fun _ => stackOnly_ofExcept _

theorem stackOnly_popFloat : popFloat.StackOnly := stackOnly_pop.bind fun _ => stackOnly_ofExcept _

theorem stackOnly_popDouble : popDouble.StackOnly :=
  stackOnly_pop.bind fun _ => stackOnly_ofExcept _

theorem stackOnly_popReference : popReference.StackOnly :=
  stackOnly_pop.bind fun _ => stackOnly_ofExcept _

theorem stackOnly_popObject (context : String) : (popObject context).StackOnly := by
  refine stackOnly_popReference.bind fun r => ?_
  cases r with
  | some o => exact stackOnly_pure o
  | none => exact stackOnly_throw _

theorem stackOnly_popMany (count : Nat) : (popMany count).StackOnly := by
  refine stackOnly_get.bind fun f => ?_
  dsimp only
  split
  · exact stackOnly_fail _
  · exact (stackOnly_setStack _).bind fun _ => stackOnly_pure _

theorem stackOnly_popNarrow : popNarrow.StackOnly := by
  refine stackOnly_pop.bind fun v => ?_
  split
  · exact stackOnly_pure v
  · exact stackOnly_fail _

theorem stackOnly_shuffle (s : Shuffle) : (shuffle s).StackOnly := by
  have narrow := stackOnly_popNarrow
  have any := stackOnly_pop
  have push := stackOnly_pushAll
  cases s with
  | pop => exact narrow.bind fun _ => stackOnly_pure ()
  | pop2 =>
    refine any.bind fun a => ?_
    split
    · exact narrow.bind fun _ => stackOnly_pure ()
    · exact stackOnly_pure ()
  | dup => exact narrow.bind fun a => push _
  | dupX1 => exact narrow.bind fun a => narrow.bind fun b => push _
  | dupX2 =>
    refine narrow.bind fun a => any.bind fun b => ?_
    split
    · exact narrow.bind fun c => push _
    · exact push _
  | dup2 =>
    refine any.bind fun a => ?_
    split
    · exact narrow.bind fun b => push _
    · exact push _
  | dup2X1 =>
    refine any.bind fun a => narrow.bind fun b => ?_
    split
    · exact narrow.bind fun c => push _
    · exact push _
  | dup2X2 =>
    refine any.bind fun a => ?_
    split
    · refine narrow.bind fun b => any.bind fun c => ?_
      split
      · exact narrow.bind fun d => push _
      · exact push _
    · refine any.bind fun b => ?_
      split
      · exact narrow.bind fun c => push _
      · exact push _
  | swap => exact narrow.bind fun a => narrow.bind fun b => push _

theorem stackOnly_arithmetic (op : Arithmetic) (n : Number) : (arithmetic op n).StackOnly := by
  cases n with
  | int =>
    refine stackOnly_popInt.bind fun b => stackOnly_popInt.bind fun a => ?_
    exact (stackOnly_raiseExcept _).bind fun _ => stackOnly_push _
  | long =>
    refine stackOnly_popLong.bind fun b => stackOnly_popLong.bind fun a => ?_
    exact (stackOnly_raiseExcept _).bind fun _ => stackOnly_push _
  | float => exact stackOnly_popFloat.bind fun b => stackOnly_popFloat.bind fun a => stackOnly_push _
  | double =>
    exact stackOnly_popDouble.bind fun b => stackOnly_popDouble.bind fun a => stackOnly_push _

theorem stackOnly_negate (n : Number) : (negate n).StackOnly := by
  cases n with
  | int => exact stackOnly_popInt.bind fun _ => stackOnly_push _
  | long => exact stackOnly_popLong.bind fun _ => stackOnly_push _
  | float => exact stackOnly_popFloat.bind fun _ => stackOnly_push _
  | double => exact stackOnly_popDouble.bind fun _ => stackOnly_push _

theorem stackOnly_shift (s : Shift) (w : IntegerWidth) : (shift s w).StackOnly := by
  cases w with
  | int => exact stackOnly_popInt.bind fun _ => stackOnly_popInt.bind fun _ => stackOnly_push _
  | long => exact stackOnly_popInt.bind fun _ => stackOnly_popLong.bind fun _ => stackOnly_push _

theorem stackOnly_bitwise (op : Bitwise) (w : IntegerWidth) : (bitwise op w).StackOnly := by
  cases w with
  | int => exact stackOnly_popInt.bind fun _ => stackOnly_popInt.bind fun _ => stackOnly_push _
  | long => exact stackOnly_popLong.bind fun _ => stackOnly_popLong.bind fun _ => stackOnly_push _

theorem stackOnly_convert (c : Conversion) : (convert c).StackOnly :=
  stackOnly_pop.bind fun _ => (stackOnly_ofExcept _).bind fun _ => stackOnly_push _

theorem stackOnly_compareLong : compareLong.StackOnly :=
  stackOnly_popLong.bind fun _ => stackOnly_popLong.bind fun _ => stackOnly_push _

theorem stackOnly_compareFloat (p : NaNPlace) : (compareFloat p).StackOnly :=
  stackOnly_popFloat.bind fun _ => stackOnly_popFloat.bind fun _ => stackOnly_push _

theorem stackOnly_compareDouble (p : NaNPlace) : (compareDouble p).StackOnly :=
  stackOnly_popDouble.bind fun _ => stackOnly_popDouble.bind fun _ => stackOnly_push _

theorem stackOnly_load (index : Nat) : (load index).StackOnly :=
  stackOnly_get.bind fun _ => stackOnly_ofExcept _

theorem stackOnly_expectKind (i : Instruction) (k : Kind) (v : Value) :
    (expectKind i k v).StackOnly := by
  unfold expectKind
  split
  · exact stackOnly_pure ()
  · exact stackOnly_fail _

theorem stackOnly_loadLocal (k : Kind) (slot : Nat) : (loadLocal k slot).StackOnly :=
  (stackOnly_load slot).bind fun _ => (stackOnly_expectKind _ _ _).bind fun _ => stackOnly_push _

theorem gentle_modify {g : Frame → Frame} (h : ∀ f : Frame, (g f).activation = f.activation) :
    (modify g : FrameM PUnit).Gentle :=
  ⟨h, fun _ _ => nofun⟩

theorem gentle_jump (target : Nat) : (jump target).Gentle := gentle_modify fun _ => rfl

theorem gentle_jumpIf (taken : Bool) (target : Nat) : (jumpIf taken target).Gentle := by
  unfold jumpIf
  split
  · exact gentle_jump target
  · exact (stackOnly_pure ()).gentle

theorem activation_of_store {f g : Frame} {index : Nat} {v : Value}
    (h : f.store index v = .ok g) : g.activation = f.activation := by
  unfold Frame.store at h
  split at h
  · cases h
  · cases h
    rfl

theorem gentle_store (index : Nat) (v : Value) : (store index v).Gentle := by
  have run (f : Frame) : (store index v).run.run f = match f.store index v with
      | .ok g => (.ok (), g)
      | .error fault => (.error (.fatal fault), f) := by
    rw [store, run_bind]
    change (ofExcept (f.store index v) >>= set).run.run f = _
    rw [run_bind]
    cases f.store index v <;> rfl
  constructor
  · intro f
    rw [run]
    cases h : f.store index v with
    | ok g => exact activation_of_store h
    | error fault => rfl
  · intro f trap
    rw [run]
    cases f.store index v with
    | ok g => exact nofun
    | error fault => exact fun _ => ⟨f.stack, rfl⟩

theorem gentle_storeLocal (k : Kind) (slot : Nat) : (storeLocal k slot).Gentle :=
  stackOnly_pop.bind_gentle fun _ => (stackOnly_expectKind _ _ _).bind_gentle fun _ =>
    gentle_store _ _

theorem gentle_increment (slot : Nat) (delta : Int16) : (increment slot delta).Gentle :=
  (stackOnly_load slot).bind_gentle fun _ => (stackOnly_ofExcept _).bind_gentle fun _ =>
    gentle_store _ _

theorem gentle_ifZero (c : Comparison) (target : Nat) : (ifZero c target).Gentle :=
  stackOnly_popInt.bind_gentle fun _ => gentle_jumpIf _ _

theorem gentle_ifInts (c : Comparison) (target : Nat) : (ifInts c target).Gentle :=
  stackOnly_popInt.bind_gentle fun _ => stackOnly_popInt.bind_gentle fun _ => gentle_jumpIf _ _

theorem gentle_ifSame (t : EqTest) (target : Nat) : (ifSame t target).Gentle :=
  stackOnly_popReference.bind_gentle fun _ => stackOnly_popReference.bind_gentle fun _ =>
    gentle_jumpIf _ _

theorem gentle_ifNull (t : EqTest) (target : Nat) : (ifNull t target).Gentle :=
  stackOnly_popReference.bind_gentle fun _ => gentle_jumpIf _ _

theorem gentle_tableSwitch (default : Nat) (low : Int32) (targets : List Nat) :
    (tableSwitch default low targets).Gentle :=
  stackOnly_popInt.bind_gentle fun _ => gentle_jump _

theorem gentle_lookupSwitch (default : Nat) (targets : List (Int32 × Nat)) :
    (lookupSwitch default targets).Gentle :=
  stackOnly_popInt.bind_gentle fun _ => gentle_jump _

end BytecodeMachine.FrameM
