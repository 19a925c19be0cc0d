import BytecodeMachine.Thread.Arithmetic
import Mathlib.Data.Int.Bitwise
import Mathlib.Tactic.Ring

namespace BytecodeMachine

namespace IntegerWidth

def bits : IntegerWidth → Nat
  | .int => 32
  | .long => 64

end IntegerWidth

namespace Arithmetic

def ideal? (op : Arithmetic) (a b : Int) : Option Int :=
  match op with
  | .add => some (a + b)
  | .sub => some (a - b)
  | .mul => some (a * b)
  | .div => if b = 0 then none else some (a.tdiv b)
  | .rem => if b = 0 then none else some (a.tmod b)

variable {op : Arithmetic} {z : Int}

theorem ideal?_eq_none_iff {a b : Int} : op.ideal? a b = none ↔ (op = .div ∨ op = .rem) ∧ b = 0 := by
  cases op <;> simp [ideal?]

theorem applyInt_of_ideal? {a b : Int32} (h : op.ideal? a.toInt b.toInt = some z) :
    ∃ c, op.applyInt a b = .ok c ∧ c.toInt = z.bmod (2 ^ 32) := by
  have nonzero (hb : b.toInt ≠ 0) : b ≠ 0 := fun hb' => hb (by rw [hb']; rfl)
  cases op with
  | add =>
    cases h
    exact ⟨a + b, rfl, Int32.toInt_add a b⟩
  | sub =>
    cases h
    exact ⟨a - b, rfl, Int32.toInt_sub a b⟩
  | mul =>
    cases h
    exact ⟨a * b, rfl, Int32.toInt_mul a b⟩
  | div =>
    simp only [ideal?, Option.ite_none_left_eq_some, Option.some.injEq] at h
    obtain ⟨hb, rfl⟩ := h
    exact ⟨a / b, if_neg (nonzero hb), Int32.toInt_div a b⟩
  | rem =>
    simp only [ideal?, Option.ite_none_left_eq_some, Option.some.injEq] at h
    obtain ⟨hb, rfl⟩ := h
    refine ⟨a % b, if_neg (nonzero hb), ?_⟩
    rw [← Int32.toInt_mod]
    exact (Int32.toInt_bmod (a % b)).symm

theorem applyLong_of_ideal? {a b : Int64} (h : op.ideal? a.toInt b.toInt = some z) :
    ∃ c, op.applyLong a b = .ok c ∧ c.toInt = z.bmod (2 ^ 64) := by
  have nonzero (hb : b.toInt ≠ 0) : b ≠ 0 := fun hb' => hb (by rw [hb']; rfl)
  cases op with
  | add =>
    cases h
    exact ⟨a + b, rfl, Int64.toInt_add a b⟩
  | sub =>
    cases h
    exact ⟨a - b, rfl, Int64.toInt_sub a b⟩
  | mul =>
    cases h
    exact ⟨a * b, rfl, Int64.toInt_mul a b⟩
  | div =>
    simp only [ideal?, Option.ite_none_left_eq_some, Option.some.injEq] at h
    obtain ⟨hb, rfl⟩ := h
    exact ⟨a / b, if_neg (nonzero hb), Int64.toInt_div a b⟩
  | rem =>
    simp only [ideal?, Option.ite_none_left_eq_some, Option.some.injEq] at h
    obtain ⟨hb, rfl⟩ := h
    refine ⟨a % b, if_neg (nonzero hb), ?_⟩
    rw [← Int64.toInt_mod]
    exact (Int64.toInt_bmod (a % b)).symm

theorem applyInt_of_undefined {a b : Int32} (h : op.ideal? a.toInt b.toInt = none) :
    op.applyInt a b = .error .divisionByZero := by
  obtain ⟨hop, hb⟩ := ideal?_eq_none_iff.1 h
  have hb : b = 0 := Int32.toInt_inj.1 hb
  rcases hop with rfl | rfl <;> exact if_pos hb

theorem applyLong_of_undefined {a b : Int64} (h : op.ideal? a.toInt b.toInt = none) :
    op.applyLong a b = .error .divisionByZero := by
  obtain ⟨hop, hb⟩ := ideal?_eq_none_iff.1 h
  have hb : b = 0 := Int64.toInt_inj.1 hb
  rcases hop with rfl | rfl <;> exact if_pos hb

-- A product and a sum that are each reduced are reduced once.
theorem bmod_tdiv_mul_add_tmod (a b : Int) (m : Nat) :
    (((a.tdiv b).bmod m * b).bmod m + (a.tmod b).bmod m).bmod m = a.bmod m := by
  rw [Int.bmod_mul_bmod, Int.bmod_add_bmod, Int.add_bmod_bmod, Int.tdiv_mul_add_tmod]

end Arithmetic

namespace Bitwise

variable {w : Nat}

def onBits : Bitwise → Bool → Bool → Bool
  | .and => Bool.and
  | .or => Bool.or
  | .xor => Bool.xor

def exact (op : Bitwise) (a b : Int) : Int := Int.bitwise op.onBits a b

theorem getLsbD_ofInt {i : Nat} (hi : i < w) (z : Int) :
    (BitVec.ofInt w z).getLsbD i = z.testBit i := by
  cases z with
  | ofNat m =>
    rw [Int.ofNat_eq_natCast, BitVec.ofInt_natCast, BitVec.getLsbD_ofNat, decide_eq_true hi]
    rfl
  | negSucc n =>
    rw [BitVec.ofInt_negSucc_eq_not_ofNat, BitVec.getLsbD_not, BitVec.getLsbD_ofNat,
      decide_eq_true hi]
    rfl

theorem toInt_of_getLsbD {op : Bitwise} {a b c : BitVec w}
    (h : ∀ i, c.getLsbD i = op.onBits (a.getLsbD i) (b.getLsbD i)) :
    c.toInt = (op.exact a.toInt b.toInt).bmod (2 ^ w) := by
  have bit (x : BitVec w) {i : Nat} (hi : i < w) : x.getLsbD i = x.toInt.testBit i := by
    rw [← getLsbD_ofInt hi, BitVec.ofInt_toInt]
  have hc : c = BitVec.ofInt w (op.exact a.toInt b.toInt) := by
    refine BitVec.eq_of_getLsbD_eq fun i hi => ?_
    rw [getLsbD_ofInt hi, exact, Int.testBit_bitwise, h i, bit a hi, bit b hi]
  rw [hc, BitVec.toInt_ofInt]

theorem toInt_applyInt (op : Bitwise) (a b : Int32) :
    (op.applyInt a b).toInt = (op.exact a.toInt b.toInt).bmod (2 ^ 32) := by
  refine toInt_of_getLsbD (w := 32) fun i => ?_
  cases op with
  | and => exact BitVec.getLsbD_and
  | or => exact BitVec.getLsbD_or
  | xor => exact BitVec.getLsbD_xor

theorem toInt_applyLong (op : Bitwise) (a b : Int64) :
    (op.applyLong a b).toInt = (op.exact a.toInt b.toInt).bmod (2 ^ 64) := by
  refine toInt_of_getLsbD (w := 64) fun i => ?_
  cases op with
  | and => exact BitVec.getLsbD_and
  | or => exact BitVec.getLsbD_or
  | xor => exact BitVec.getLsbD_xor

end Bitwise

namespace Shift

variable {w : Nat}

def exact (s : Shift) (w : IntegerWidth) (a distance : Int) : Int :=
  let places := (distance % w.bits).toNat
  match s with
  | .left => a * 2 ^ places
  | .arithmeticRight => a / 2 ^ places
  | .logicalRight => a % 2 ^ w.bits / 2 ^ places

theorem natCast_toNat (a : BitVec w) : (a.toNat : Int) = a.toInt % 2 ^ w := by
  have ha : (a.toNat : Int) < 2 ^ w := by exact_mod_cast a.isLt
  have hm := Int.bmod_emod (x := (a.toNat : Int)) (m := 2 ^ w)
  push_cast at hm
  rw [BitVec.toInt_eq_toNat_bmod, hm, Int.emod_eq_of_lt (by omega) ha]

theorem toNat_smod {x m : BitVec w} (h : 0 < m.toInt) :
    (x.smod m).toNat = (x.toInt % m.toInt).toNat := by
  have hmod : (x.smod m).toInt = x.toInt % m.toInt := by
    rw [BitVec.toInt_smod, Int.fmod_eq_emod_of_nonneg _ h.le]
  have hnonneg : 0 ≤ (x.smod m).toInt := hmod ▸ Int.emod_nonneg _ h.ne'
  rw [← hmod, BitVec.toInt_eq_toNat_cond] at *
  split at hnonneg <;> split <;> omega

theorem toNat_umod {x m : BitVec w} (h : (m.toNat : Int) ∣ 2 ^ w) :
    (x % m).toNat = (x.toInt % m.toNat).toNat := by
  have hmod : ((x % m).toNat : Int) = x.toInt % m.toNat := by
    rw [BitVec.toNat_umod, Int.natCast_emod, natCast_toNat, Int.emod_emod_of_dvd _ h]
  omega

theorem toInt_shiftLeft (a : BitVec w) (n : Nat) :
    (a <<< n).toInt = (a.toInt * 2 ^ n).bmod (2 ^ w) := by
  have h : (a <<< n) = BitVec.ofInt w (a.toInt * 2 ^ n) := by
    refine BitVec.eq_of_toNat_eq ?_
    rw [BitVec.ofInt_mul, BitVec.ofInt_toInt, BitVec.shiftLeft_eq_mul_twoPow]
    have hpow : BitVec.ofInt w (2 ^ n) = BitVec.twoPow w n := by
      refine BitVec.eq_of_toNat_eq ?_
      rw [show (2 ^ n : Int) = ((2 ^ n : Nat) : Int) by push_cast; rfl, BitVec.ofInt_natCast,
        BitVec.toNat_ofNat, BitVec.toNat_twoPow]
    rw [hpow]
  rw [h, BitVec.toInt_ofInt]

theorem toInt_sshiftRight (a : BitVec w) (n : Nat) :
    (a.sshiftRight n).toInt = (a.toInt / 2 ^ n).bmod (2 ^ w) := by
  have h : (a.sshiftRight n).toInt = a.toInt / 2 ^ n := by
    rw [BitVec.toInt_sshiftRight, Int.shiftRight_eq_div_pow]
    norm_cast
  rw [← h, BitVec.toInt_bmod_cancel]

theorem toInt_ushiftRight (a : BitVec w) (n : Nat) :
    (a >>> n).toInt = (a.toInt % 2 ^ w / 2 ^ n).bmod (2 ^ w) := by
  rw [BitVec.toInt_eq_toNat_bmod, BitVec.toNat_ushiftRight, Nat.shiftRight_eq_div_pow,
    ← natCast_toNat]
  norm_cast

theorem toInt_applyInt (s : Shift) (a distance : Int32) :
    (s.applyInt a distance).toInt = (s.exact .int a.toInt distance.toInt).bmod (2 ^ 32) := by
  have signed : (distance.toBitVec.smod 32).toNat = (distance.toInt % 32).toNat :=
    toNat_smod (by decide)
  have unsigned : (distance.toBitVec % 32).toNat = (distance.toInt % 32).toNat :=
    toNat_umod (by decide)
  rw [← Int32.toInt_toBitVec]
  cases s with
  | left =>
    change (a <<< distance).toBitVec.toInt = _
    rw [Int32.toBitVec_shiftLeft, BitVec.shiftLeft_eq', signed, toInt_shiftLeft]
    rfl
  | arithmeticRight =>
    change (a >>> distance).toBitVec.toInt = _
    rw [Int32.toBitVec_shiftRight, BitVec.sshiftRight_eq', signed, toInt_sshiftRight]
    rfl
  | logicalRight =>
    change (a.toUInt32 >>> distance.toUInt32).toBitVec.toInt = _
    rw [UInt32.toBitVec_shiftRight, BitVec.ushiftRight_eq', Int32.toBitVec_toUInt32,
      Int32.toBitVec_toUInt32, unsigned, toInt_ushiftRight]
    rfl

theorem toInt_applyLong (s : Shift) (a : Int64) (distance : Int32) :
    (s.applyLong a distance).toInt = (s.exact .long a.toInt distance.toInt).bmod (2 ^ 64) := by
  have hd : distance.toInt64.toBitVec.toInt = distance.toInt := by
    rw [Int64.toInt_toBitVec, Int32.toInt_toInt64]
  have signed : (distance.toInt64.toBitVec.smod 64).toNat = (distance.toInt % 64).toNat := by
    rw [toNat_smod (by decide), hd]
    rfl
  have unsigned : (distance.toInt64.toBitVec % 64).toNat = (distance.toInt % 64).toNat := by
    rw [toNat_umod (by decide), hd]
    rfl
  rw [← Int64.toInt_toBitVec]
  cases s with
  | left =>
    change (a <<< distance.toInt64).toBitVec.toInt = _
    rw [Int64.toBitVec_shiftLeft, BitVec.shiftLeft_eq', signed, toInt_shiftLeft]
    rfl
  | arithmeticRight =>
    change (a >>> distance.toInt64).toBitVec.toInt = _
    rw [Int64.toBitVec_shiftRight, BitVec.sshiftRight_eq', signed, toInt_sshiftRight]
    rfl
  | logicalRight =>
    change (a.toUInt64 >>> distance.toInt64.toUInt64).toBitVec.toInt = _
    rw [UInt64.toBitVec_shiftRight, BitVec.ushiftRight_eq', Int64.toBitVec_toUInt64,
      Int64.toBitVec_toUInt64, unsigned, toInt_ushiftRight]
    rfl

end Shift

theorem toInt_lowHalf (n : Int32) :
    n.toUInt32.toUInt16.toUInt32.toInt32.toInt = (n.toInt % 2 ^ 16).bmod (2 ^ 32) := by
  rw [← Int32.toInt_toBitVec, UInt32.toBitVec_toInt32, UInt16.toBitVec_toUInt32,
    UInt32.toBitVec_toUInt16, Int32.toBitVec_toUInt32, BitVec.toInt_setWidth,
    BitVec.toNat_setWidth, Int.natCast_emod, Shift.natCast_toNat, Int32.toInt_toBitVec]
  push_cast
  rw [Int.emod_emod_of_dvd _ (by decide)]

theorem toInt_signOf (a b : Int) :
    (signOf (compare a b)).toInt = (a - b).sign.bmod (2 ^ 32) := by
  rcases Int.lt_trichotomy a b with h | rfl | h
  · rw [compare_lt_iff_lt.2 h, Int.sign_eq_neg_one_of_neg (by omega)]
    rfl
  · rw [compare_eq_iff_eq.2 rfl, Int.sub_self]
    rfl
  · rw [compare_gt_iff_gt.2 h, Int.sign_eq_one_of_pos (by omega)]
    rfl

end BytecodeMachine
