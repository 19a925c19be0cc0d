import BytecodeMachine.Exec.Run
import BytecodeMachine.Proofs.Integers.Words
import BytecodeMachine.Proofs.Locals
import BytecodeMachine.Proofs.Shuffles

namespace BytecodeMachine

inductive IntegerWidth.Reads : IntegerWidth → Value → Int → Prop
  | int (n : Int32) : Reads .int (.int n) n.toInt
  | long (n : Int64) : Reads .long (.long n) n.toInt

inductive IntegerWidth.Operands : List IntegerWidth → List Value → List Int → Prop
  | nil : Operands [] [] []
  | cons {w : IntegerWidth} {ws : List IntegerWidth} {v : Value} {vs : List Value} {z : Int}
      {zs : List Int} (h : w.Reads v z) (hs : Operands ws vs zs) :
      Operands (w :: ws) (v :: vs) (z :: zs)

def IntegerWidth.number : IntegerWidth → Number
  | .int => .int
  | .long => .long

namespace Instruction

open IntegerWidth Exec

variable {i : Instruction} {inputs : List IntegerWidth} {output w : IntegerWidth}
  {operands : List Value} {numbers : List Int}

def integers? : Instruction → Option (List IntegerWidth × IntegerWidth)
  | .arithmetic _ .int => some ([.int, .int], .int)
  | .arithmetic _ .long => some ([.long, .long], .long)
  | .negate .int => some ([.int], .int)
  | .negate .long => some ([.long], .long)
  | .bitwise _ w => some ([w, w], w)
  | .shift _ w => some ([w, .int], w)
  | .compareLong => some ([.long, .long], .int)
  | .convert .i2l => some ([.int], .long)
  | .convert .l2i => some ([.long], .int)
  | .convert .i2b | .convert .i2c | .convert .i2s => some ([.int], .int)
  | _ => none

def ideal? : Instruction → List Int → Option Int
  | .arithmetic op _, [a, b] => op.ideal? a b
  | .negate _, [a] => some (-a)
  | .bitwise op _, [a, b] => some (op.exact a b)
  | .shift s w, [a, distance] => some (s.exact w a distance)
  | .compareLong, [a, b] => some (a - b).sign
  | .convert .i2l, [a] | .convert .l2i, [a] => some a
  | .convert .i2b, [a] => some (a.bmod (2 ^ 8))
  | .convert .i2c, [a] => some (a % 2 ^ 16)
  | .convert .i2s, [a] => some (a.bmod (2 ^ 16))
  | _, _ => none

def Yields (i : Instruction) (operands : List Value) (r : Except Cause Value) : Prop :=
  ∀ (e : Engine) (t : Thread) (f : Frame) (rest : List Frame) (below : List Value),
    t.frames = f :: rest → f.stack = operands.reverse ++ below →
      (execute e i).on t = pure (match r with
        | .ok v => (.ok (), { t with frames := { f with stack := v :: below } :: rest })
        | .error cause =>
            (.error (.raise cause), { t with frames := { f with stack := below } :: rest }))

end Instruction

theorem Exec.on_inFrame {α : Type} (a : FrameM α) {t : Thread} {f : Frame} {rest : List Frame}
    (h : t.frames = f :: rest) : (inFrame a).on t =
      pure ((a.run.run f).1, { t with frames := (a.run.run f).2 :: rest }) := by
  have hget (k : Thread → Exec α) : (get >>= k).on t = (k t).on t := rfl
  rw [inFrame, hget, h]
  dsimp only
  generalize a.run.run f = x
  obtain ⟨r, g⟩ := x
  cases r <;> rfl

namespace FrameM

variable {α β : Type} {f : Frame} {v : Value}

def Takes (action : FrameM α) (v : Value) (a : α) : Prop :=
  ∀ (f : Frame) (below : List Value), f.stack = v :: below →
    action.run.run f = (.ok a, { f with stack := below })

def Leaves (action : FrameM Unit) (r : Except Cause Value) : Prop :=
  ∀ f : Frame, action.run.run f = match r with
    | .ok v => (.ok (), { f with stack := v :: f.stack })
    | .error cause => (.error (.raise cause), f)

theorem takes_pop (v : Value) : Takes pop v v := by
  intro f below h
  rw [run_pop, h]

theorem Takes.ofExcept {x : FrameM α} {a : α} {g : α → Except Fault β} {b : β}
    (h : Takes x v a) (hg : g a = .ok b) : Takes (x >>= fun a => ofExcept (g a)) v b := by
  intro f below hf
  rw [run_bind, h f below hf]
  dsimp only
  rw [hg]
  rfl

theorem takes_popInt (n : Int32) : Takes popInt (.int n) n := (takes_pop _).ofExcept rfl

theorem takes_popLong (n : Int64) : Takes popLong (.long n) n := (takes_pop _).ofExcept rfl

theorem leaves_push (v : Value) : Leaves (push v) (.ok v) := fun _ => rfl

theorem leaves_raiseExcept (r : Except Cause α) (g : α → Value) :
    Leaves (raiseExcept r >>= fun a => push (g a)) (r.map g) := by
  intro f
  rw [run_bind]
  cases r <;> rfl

theorem run_increment {slot : Nat} {delta : Int16} {n : Int32}
    (h : f.locals[slot]? = some (.value (.int n))) : (increment slot delta).run.run f =
      (.ok (), { f with locals :=
        f.locals.setIfInBounds slot (.value (.int (n + delta.toInt32))) }) := by
  obtain ⟨hslot, -⟩ := Array.getElem?_eq_some_iff.1 h
  have hload : (load slot).run.run f = (.ok (.int n), f) := by
    change (ofExcept (f.load slot)).run.run f = _
    rw [Frame.load, h]
    rfl
  have hsize : ¬ f.locals.size < slot + 1 := by omega
  -- An int is no half of a wide value, so nothing else is emptied.
  have hlower : Frame.dropLower f.locals slot = f.locals := by rw [Frame.dropLower, h]
  have hupper : Frame.dropUpper f.locals slot = f.locals := by
    rw [Frame.dropUpper, h]
    rfl
  rw [increment, run_bind, hload]
  dsimp only
  rw [run_bind]
  change (store slot (.int (n + delta.toInt32))).run.run f = _
  rw [run_store]
  change (if f.locals.size < slot + 1 then _ else
    (_, { f with locals := Frame.place (Frame.dropUpper (Frame.dropLower f.locals slot) slot) slot _ })) = _
  rw [if_neg hsize, hlower, hupper]
  rfl

end FrameM

namespace IntegerWidth

variable {w : IntegerWidth} {u v : Value} {z : Int}

theorem Reads.eq (hu : w.Reads u z) (hv : w.Reads v z) : u = v := by
  cases hu with
  | int n =>
    generalize hz : n.toInt = z at hv
    cases hv with
    | int m => rw [Int32.toInt_inj.1 hz]
  | long n =>
    generalize hz : n.toInt = z at hv
    cases hv with
    | long m => rw [Int64.toInt_inj.1 hz]

theorem Reads.bmod (h : w.Reads v z) : z.bmod (2 ^ w.bits) = z := by
  cases h with
  | int n => exact Int32.toInt_bmod n
  | long n => exact Int64.toInt_bmod n

theorem reads_int {n : Int32} (h : n.toInt = z) : Reads .int (.int n) z := h ▸ .int n

theorem reads_long {n : Int64} (h : n.toInt = z) : Reads .long (.long n) z := h ▸ .long n

end IntegerWidth

namespace Instruction

open IntegerWidth Exec FrameM

variable {i : Instruction} {inputs : List IntegerWidth} {output w : IntegerWidth}
  {operands : List Value} {numbers : List Int}

theorem yields_unary {α : Type} {x : FrameM α} {k : α → FrameM Unit} {u : Value} {a : α}
    {r : Except Cause Value} (he : ∀ e, execute e i = inFrame (x >>= k)) (hx : Takes x u a)
    (hk : Leaves (k a) r) : i.Yields [u] r := by
  intro e t f rest below ht hs
  rw [he, on_inFrame _ ht, run_bind, hx f below hs]
  dsimp only
  rw [hk]
  cases r <;> rfl

theorem yields_binary {α β : Type} {x : FrameM β} {y : FrameM α} {k : β → α → FrameM Unit}
    {u v : Value} {a : α} {b : β} {r : Except Cause Value}
    (he : ∀ e, execute e i = inFrame (x >>= fun b => y >>= k b)) (hx : Takes x v b)
    (hy : Takes y u a) (hk : Leaves (k b a) r) : i.Yields [u, v] r := by
  intro e t f rest below ht hs
  rw [he, on_inFrame _ ht, run_bind, hx f (u :: below) hs]
  dsimp only
  rw [run_bind, hy _ below rfl]
  dsimp only
  rw [hk]
  cases r <;> rfl

theorem yields_arithmetic_int (op : Arithmetic) (a b : Int32) :
    Yields (.arithmetic op .int) [.int a, .int b] ((op.applyInt a b).map .int) :=
  yields_binary (fun _ => rfl) (takes_popInt b) (takes_popInt a) (leaves_raiseExcept _ _)

theorem yields_arithmetic_long (op : Arithmetic) (a b : Int64) :
    Yields (.arithmetic op .long) [.long a, .long b] ((op.applyLong a b).map .long) :=
  yields_binary (fun _ => rfl) (takes_popLong b) (takes_popLong a) (leaves_raiseExcept _ _)

theorem yields_convert {c : Conversion} {u v : Value} (h : c.apply u = .ok v) :
    Yields (.convert c) [u] (.ok v) := by
  have hx : Takes (pop >>= fun v => ofExcept (c.apply v)) u v := (takes_pop u).ofExcept h
  refine yields_unary (fun e => ?_) hx (leaves_push v)
  rw [bind_assoc]
  rfl

theorem integers?_arithmetic (op : Arithmetic) (w : IntegerWidth) :
    (Instruction.arithmetic op w.number).integers? = some ([w, w], w) := by
  cases w <;> rfl

theorem reduced_arithmetic (op : Arithmetic) {u v : Value} {a b z : Int} (hu : w.Reads u a)
    (hv : w.Reads v b) (hz : op.ideal? a b = some z) : ∃ n, w.Reads n (z.bmod (2 ^ w.bits)) ∧
      Yields (.arithmetic op w.number) [u, v] (.ok n) := by
  cases hu with
  | int a =>
    obtain ⟨b⟩ := hv
    obtain ⟨c, hc, hn⟩ := Arithmetic.applyInt_of_ideal? hz
    have h := yields_arithmetic_int op a b
    rw [hc] at h
    exact ⟨.int c, reads_int hn, h⟩
  | long a =>
    obtain _ | ⟨b⟩ := hv
    obtain ⟨c, hc, hn⟩ := Arithmetic.applyLong_of_ideal? hz
    have h := yields_arithmetic_long op a b
    rw [hc] at h
    exact ⟨.long c, reads_long hn, h⟩

theorem reduced_negate {u : Value} {a : Int} (hu : w.Reads u a) :
    ∃ n, w.Reads n ((-a).bmod (2 ^ w.bits)) ∧ Yields (.negate w.number) [u] (.ok n) := by
  cases hu with
  | int a => exact ⟨.int (-a), reads_int (Int32.toInt_neg a),
      yields_unary (fun _ => rfl) (takes_popInt a) (leaves_push _)⟩
  | long a => exact ⟨.long (-a), reads_long (Int64.toInt_neg a),
      yields_unary (fun _ => rfl) (takes_popLong a) (leaves_push _)⟩

theorem reduced_bitwise (op : Bitwise) {u v : Value} {a b : Int} (hu : w.Reads u a)
    (hv : w.Reads v b) : ∃ n, w.Reads n ((op.exact a b).bmod (2 ^ w.bits)) ∧
      Yields (.bitwise op w) [u, v] (.ok n) := by
  cases hu with
  | int a =>
    obtain ⟨b⟩ := hv
    exact ⟨.int (op.applyInt a b), reads_int (op.toInt_applyInt a b),
      yields_binary (fun _ => rfl) (takes_popInt b) (takes_popInt a) (leaves_push _)⟩
  | long a =>
    obtain _ | ⟨b⟩ := hv
    exact ⟨.long (op.applyLong a b), reads_long (op.toInt_applyLong a b),
      yields_binary (fun _ => rfl) (takes_popLong b) (takes_popLong a) (leaves_push _)⟩

theorem reduced_shift (s : Shift) {u v : Value} {a distance : Int} (hu : w.Reads u a)
    (hv : Reads .int v distance) : ∃ n, w.Reads n ((s.exact w a distance).bmod (2 ^ w.bits)) ∧
      Yields (.shift s w) [u, v] (.ok n) := by
  obtain ⟨b⟩ := hv
  cases hu with
  | int a => exact ⟨.int (s.applyInt a b), reads_int (s.toInt_applyInt a b),
      yields_binary (fun _ => rfl) (takes_popInt b) (takes_popInt a) (leaves_push _)⟩
  | long a => exact ⟨.long (s.applyLong a b), reads_long (s.toInt_applyLong a b),
      yields_binary (fun _ => rfl) (takes_popInt b) (takes_popLong a) (leaves_push _)⟩

-- One case for each instruction, in which the operands are words of its widths.
theorem yields_reduced {z : Int} (hi : i.integers? = some (inputs, output))
    (ho : Operands inputs operands numbers) (hz : i.ideal? numbers = some z) :
    ∃ v, output.Reads v (z.bmod (2 ^ output.bits)) ∧ i.Yields operands (.ok v) := by
  unfold integers? at hi
  split at hi
  all_goals cases hi
  case h_1 op =>
    obtain _ | ⟨ha, _ | ⟨hb, _ | _⟩⟩ := ho
    exact reduced_arithmetic (w := .int) op ha hb hz
  case h_2 op =>
    obtain _ | ⟨ha, _ | ⟨hb, _ | _⟩⟩ := ho
    exact reduced_arithmetic (w := .long) op ha hb hz
  case h_3 =>
    obtain _ | ⟨ha, _ | _⟩ := ho
    cases hz
    exact reduced_negate (w := .int) ha
  case h_4 =>
    obtain _ | ⟨ha, _ | _⟩ := ho
    cases hz
    exact reduced_negate (w := .long) ha
  case h_5 op =>
    obtain _ | ⟨ha, _ | ⟨hb, _ | _⟩⟩ := ho
    cases hz
    exact reduced_bitwise op ha hb
  case h_6 s =>
    obtain _ | ⟨ha, _ | ⟨hb, _ | _⟩⟩ := ho
    cases hz
    exact reduced_shift s ha hb
  case h_7 =>
    obtain _ | ⟨_ | ⟨a⟩, _ | ⟨_ | ⟨b⟩, _ | _⟩⟩ := ho
    cases hz
    exact ⟨.int (signOf (compareLongs a b)), reads_int (toInt_signOf a.toInt b.toInt),
      yields_binary (fun _ => rfl) (takes_popLong b) (takes_popLong a) (leaves_push _)⟩
  case h_8 =>
    obtain _ | ⟨⟨a⟩, _ | _⟩ := ho
    cases hz
    have hn : a.toInt64.toInt = a.toInt.bmod (2 ^ 64) :=
      a.toInt_toInt64.trans a.toInt_bmod_18446744073709551616.symm
    exact ⟨.long a.toInt64, reads_long hn, yields_convert rfl⟩
  case h_9 =>
    obtain _ | ⟨_ | ⟨a⟩, _ | _⟩ := ho
    cases hz
    exact ⟨.int a.toInt32, reads_int (Int64.toInt_toInt32 a), yields_convert rfl⟩
  case h_10 =>
    obtain _ | ⟨⟨a⟩, _ | _⟩ := ho
    cases hz
    have hn : a.toInt8.toInt32.toInt = (a.toInt.bmod (2 ^ 8)).bmod (2 ^ 32) := by
      rw [Int8.toInt_toInt32, ← Int32.toInt_toInt8]
      exact a.toInt8.toInt_bmod_4294967296.symm
    exact ⟨.int a.toInt8.toInt32, reads_int hn, yields_convert rfl⟩
  case h_11 =>
    obtain _ | ⟨⟨a⟩, _ | _⟩ := ho
    cases hz
    exact ⟨.int a.toUInt32.toUInt16.toUInt32.toInt32, reads_int (toInt_lowHalf a),
      yields_convert rfl⟩
  case h_12 =>
    obtain _ | ⟨⟨a⟩, _ | _⟩ := ho
    cases hz
    have hn : a.toInt16.toInt32.toInt = (a.toInt.bmod (2 ^ 16)).bmod (2 ^ 32) := by
      rw [Int16.toInt_toInt32, ← Int32.toInt_toInt16]
      exact a.toInt16.toInt_bmod_4294967296.symm
    exact ⟨.int a.toInt16.toInt32, reads_int hn, yields_convert rfl⟩

theorem eq_arithmetic_of_undefined (hi : i.integers? = some (inputs, output))
    (ho : Operands inputs operands numbers) (hz : i.ideal? numbers = none) :
    ∃ op, i = .arithmetic op (number output) := by
  unfold integers? at hi
  split at hi
  all_goals cases hi
  case h_1 op => exact ⟨op, rfl⟩
  case h_2 op => exact ⟨op, rfl⟩
  all_goals
    obtain _ | ⟨_, _ | ⟨_, _ | _⟩⟩ := ho
    cases hz

theorem ideal?_eq_none_iff (hi : i.integers? = some (inputs, output))
    (ho : Operands inputs operands numbers) : i.ideal? numbers = none ↔
      ∃ op w a, i = .arithmetic op (number w) ∧ (op = .div ∨ op = .rem) ∧ numbers = [a, 0] := by
  constructor
  · intro hz
    obtain ⟨op, rfl⟩ := eq_arithmetic_of_undefined hi ho hz
    rw [integers?_arithmetic] at hi
    cases hi
    obtain _ | ⟨ha, _ | ⟨hb, _ | _⟩⟩ := ho
    obtain ⟨hop, rfl⟩ := Arithmetic.ideal?_eq_none_iff.1 hz
    exact ⟨op, output, _, rfl, hop, rfl⟩
  · rintro ⟨op, w, a, rfl, hop, rfl⟩
    exact Arithmetic.ideal?_eq_none_iff.2 ⟨hop, rfl⟩

theorem yields_division_by_zero (hi : i.integers? = some (inputs, output))
    (ho : Operands inputs operands numbers) (hz : i.ideal? numbers = none) :
    i.Yields operands (.error .divisionByZero) := by
  obtain ⟨op, rfl⟩ := eq_arithmetic_of_undefined hi ho hz
  rw [integers?_arithmetic] at hi
  cases hi
  cases output with
  | int =>
    obtain _ | ⟨⟨a⟩, _ | ⟨⟨b⟩, _ | _⟩⟩ := ho
    have h := yields_arithmetic_int op a b
    rw [Arithmetic.applyInt_of_undefined hz] at h
    exact h
  | long =>
    obtain _ | ⟨_ | ⟨a⟩, _ | ⟨_ | ⟨b⟩, _ | _⟩⟩ := ho
    have h := yields_arithmetic_long op a b
    rw [Arithmetic.applyLong_of_undefined hz] at h
    exact h

-- The quotient may wrap, and so may its product with the divisor.
theorem yields_divided {u v : Value} {a b : Int} (hu : w.Reads u a) (hv : w.Reads v b)
    (hb : b ≠ 0) : ∃ q r p,
      Yields (.arithmetic .div w.number) [u, v] (.ok q) ∧
      Yields (.arithmetic .rem w.number) [u, v] (.ok r) ∧
      Yields (.arithmetic .mul w.number) [q, v] (.ok p) ∧
      Yields (.arithmetic .add w.number) [p, r] (.ok u) := by
  obtain ⟨q, hq, div⟩ := reduced_arithmetic .div hu hv (if_neg hb)
  obtain ⟨r, hr, rem⟩ := reduced_arithmetic .rem hu hv (if_neg hb)
  obtain ⟨p, hp, mul⟩ := reduced_arithmetic .mul hq hv rfl
  obtain ⟨n, hn, add⟩ := reduced_arithmetic .add hp hr rfl
  rw [Arithmetic.bmod_tdiv_mul_add_tmod, hu.bmod] at hn
  exact ⟨q, r, p, div, rem, mul, hn.eq hu ▸ add⟩

theorem execute_increment (e : Engine) {t : Thread} {f : Frame} {rest : List Frame} {slot : Nat}
    {v : Value} {z : Int} (delta : Int16) (ht : t.frames = f :: rest)
    (hf : f.locals[slot]? = some (.value v)) (hv : Reads .int v z) :
    ∃ u, Reads .int u ((z + delta.toInt).bmod (2 ^ 32)) ∧
      (execute e (.increment slot delta)).on t = pure (.ok (), { t with frames :=
        { f with locals := f.locals.setIfInBounds slot (.value u) } :: rest }) := by
  obtain ⟨n⟩ := hv
  have hn : (n + delta.toInt32).toInt = (n.toInt + delta.toInt).bmod (2 ^ 32) := by
    rw [Int32.toInt_add, Int16.toInt_toInt32]
  refine ⟨.int (n + delta.toInt32), reads_int hn, ?_⟩
  change (inFrame (FrameM.increment slot delta)).on t = _
  rw [on_inFrame _ ht, run_increment hf]

-- The only trap is that of a division by zero. An increment leaves the operand stack alone.
theorem integer_results_wrap :
    (∀ (i : Instruction) (inputs : List IntegerWidth) (output : IntegerWidth)
        (operands : List Value) (numbers : List Int),
      i.integers? = some (inputs, output) → Operands inputs operands numbers →
        (∀ z, i.ideal? numbers = some z →
          ∃ v, output.Reads v (z.bmod (2 ^ output.bits)) ∧ i.Yields operands (.ok v)) ∧
        (i.ideal? numbers = none → i.Yields operands (.error .divisionByZero)) ∧
        (i.ideal? numbers = none ↔ ∃ op w a,
          i = .arithmetic op (number w) ∧ (op = .div ∨ op = .rem) ∧ numbers = [a, 0])) ∧
    Cause.divisionByZero.condition = .arithmetic ∧
    (∀ (w : IntegerWidth) (u v : Value) (a b : Int), w.Reads u a → w.Reads v b → b ≠ 0 →
      ∃ q r p,
        Yields (.arithmetic .div w.number) [u, v] (.ok q) ∧
        Yields (.arithmetic .rem w.number) [u, v] (.ok r) ∧
        Yields (.arithmetic .mul w.number) [q, v] (.ok p) ∧
        Yields (.arithmetic .add w.number) [p, r] (.ok u)) ∧
    ∀ (e : Engine) (t : Thread) (f : Frame) (rest : List Frame) (slot : Nat) (delta : Int16)
        (v : Value) (z : Int),
      t.frames = f :: rest → f.locals[slot]? = some (.value v) → Reads .int v z →
        ∃ u, Reads .int u ((z + delta.toInt).bmod (2 ^ 32)) ∧
          (execute e (.increment slot delta)).on t = pure (.ok (), { t with frames :=
            { f with locals := f.locals.setIfInBounds slot (.value u) } :: rest }) :=
  ⟨fun _ _ _ _ _ hi ho =>
      ⟨fun _ => yields_reduced hi ho, yields_division_by_zero hi ho, ideal?_eq_none_iff hi ho⟩,
    rfl, fun _ _ _ _ _ => yields_divided, fun e _ _ _ _ delta _ _ => execute_increment e delta⟩

theorem integer_results_wrap_at_extremes :
    let least : Value := .int Int32.minValue
    let greatest : Frame := { Frame.blank with locals := #[.value (.int Int32.maxValue)] }
    let t : Thread := { Thread.start 1 "main" with frames := [greatest] }
    (∃ v, Reads .int v (-2147483648) ∧ Yields (.arithmetic .div .int) [least, .int (-1)] (.ok v)) ∧
    Yields (.arithmetic .rem .int) [least, .int 0] (.error .divisionByZero) ∧
    (∃ q r p,
      Yields (.arithmetic .div .int) [least, .int (-1)] (.ok q) ∧
      Yields (.arithmetic .rem .int) [least, .int (-1)] (.ok r) ∧
      Yields (.arithmetic .mul .int) [q, .int (-1)] (.ok p) ∧
      Yields (.arithmetic .add .int) [p, r] (.ok least)) ∧
    ∃ u, Reads .int u (-2147483648) ∧
      (execute .standard (.increment 0 1)).on t = pure (.ok (), { t with frames :=
        [{ greatest with locals := #[.value u] }] }) := by
  intro least greatest t
  obtain ⟨results, -, division, increment⟩ := integer_results_wrap
  have operands (b : Int32) :
      Operands [.int, .int] [least, .int b] [Int32.minValue.toInt, b.toInt] :=
    .cons (.int _) (.cons (.int b) .nil)
  obtain ⟨divided, -, -⟩ := results (.arithmetic .div .int) _ _ _ _ rfl (operands (-1))
  obtain ⟨-, undefined, -⟩ := results (.arithmetic .rem .int) _ _ _ _ rfl (operands 0)
  exact ⟨divided 2147483648 rfl, undefined rfl,
    division .int _ _ _ _ (.int _) (.int (-1)) (by decide),
    increment .standard t greatest [] 0 1 _ _ rfl rfl (.int Int32.maxValue)⟩

end Instruction

end BytecodeMachine
