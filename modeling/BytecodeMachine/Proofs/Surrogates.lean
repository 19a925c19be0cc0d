import BytecodeMachine.Proofs.Bridge.Units

namespace BytecodeMachine.Text

variable {u v : UInt16} {us vs : List UInt16}

inductive Paired : List UInt16 → Prop
  | nil : Paired []
  | unit {u : UInt16} {us : List UInt16} (high : isHigh u = false) (low : isLow u = false)
      (rest : Paired us) : Paired (u :: us)
  | pair {u v : UInt16} {us : List UInt16} (high : isHigh u = true) (low : isLow v = true)
      (rest : Paired us) : Paired (u :: v :: us)

def mend (u : UInt16) : UInt16 :=
  if isHigh u || isLow u then 0xFFFD else u

def mended : List UInt16 → List UInt16
  | [] => []
  | [u] => [mend u]
  | u :: v :: rest =>
      if isHigh u && isLow v then u :: v :: mended rest else mend u :: mended (v :: rest)

theorem mend_eq_self_iff : mend u = u ↔ isHigh u = false ∧ isLow u = false := by
  unfold mend
  split
  · rename_i h
    refine ⟨?_, fun ⟨high, low⟩ => by simp [high, low] at h⟩
    rintro rfl
    revert h
    decide
  · rename_i h
    simpa using h

theorem mended_of_single (hu : isHigh u = false) (us : List UInt16) :
    mended (u :: us) = mend u :: mended us := by
  cases us with
  | nil => rfl
  | cons v us => simp [mended, hu]

theorem mended_of_pair (hu : isHigh u = true) (hv : isLow v = true) (us : List UInt16) :
    mended (u :: v :: us) = u :: v :: mended us := by
  simp [mended, hu, hv]

theorem Paired.mended_eq (h : Paired us) : mended us = us := by
  induction h with
  | nil => rfl
  | unit high low _ ih => rw [mended_of_single high, ih, mend_eq_self_iff.2 ⟨high, low⟩]
  | pair high low _ ih => rw [mended_of_pair high low, ih]

theorem mended_eq_self_iff : mended us = us ↔ Paired us := by
  refine ⟨fun h => ?_, Paired.mended_eq⟩
  fun_induction mended us with
  | case1 => exact .nil
  | case2 u =>
    obtain ⟨high, low⟩ := mend_eq_self_iff.1 (List.cons.inj h).1
    exact .unit high low .nil
  | case3 u v rest hp ih =>
    obtain ⟨high, low⟩ := Bool.and_eq_true_iff.1 hp
    exact .pair high low (ih (List.cons.inj (List.cons.inj h).2).2)
  | case4 u v rest _ ih =>
    obtain ⟨hu, hr⟩ := List.cons.inj h
    obtain ⟨high, low⟩ := mend_eq_self_iff.1 hu
    exact .unit high low (ih hr)

theorem toNat_ofNat {n : Nat} (h : n.isValidChar) : (Char.ofNat n).toNat = n := by
  rw [Char.ofNat, dif_pos h]
  rfl

theorem units_single (u : UInt16) (cs : List Char) : units (single u :: cs) = mend u :: units cs := by
  unfold single mend
  split
  · rfl
  · rename_i h
    have hv : u.toNat.isValidChar := by
      have hlt := u.toNat_lt
      simp only [isHigh, isLow, Bool.or_eq_true, Bool.and_eq_true, decide_eq_true_eq] at h
      simp only [Nat.isValidChar]
      omega
    have hn : (Char.ofNat u.toNat).toNat = u.toNat := toNat_ofNat hv
    simp [units, hn, u.toNat_lt]

theorem units_pair (hu : isHigh u = true) (hv : isLow v = true) (cs : List Char) :
    units (pair u v :: cs) = u :: v :: units cs := by
  simp only [isHigh, Bool.and_eq_true, decide_eq_true_eq] at hu
  simp only [isLow, Bool.and_eq_true, decide_eq_true_eq] at hv
  have hn : (pair u v).toNat =
      0x10000 + (u.toNat - 0xD800) * 0x400 + (v.toNat - 0xDC00) := by
    refine toNat_ofNat ?_
    simp only [Nat.isValidChar]
    omega
  have high : 0xD800 + ((pair u v).toNat - 0x10000) / 0x400 = u.toNat := by omega
  have low : 0xDC00 + ((pair u v).toNat - 0x10000) % 0x400 = v.toNat := by omega
  rw [units, if_neg (by omega), high, low]
  simp

theorem units_chars (us : List UInt16) : units (chars us) = mended us := by
  fun_induction mended us with
  | case1 => rfl
  | case2 u => exact units_single u []
  | case3 u v rest h ih =>
    obtain ⟨high, low⟩ := Bool.and_eq_true_iff.1 h
    rw [chars_of_pair high low, units_pair high low, ih]
  | case4 u v rest h ih => rw [chars, if_neg h, units_single, ih]

theorem chars_eq_iff : chars us = chars vs ↔ mended us = mended vs := by
  rw [← units_chars, ← units_chars]
  refine ⟨congrArg units, fun h => ?_⟩
  rw [← chars_units (chars us), h, chars_units]

end BytecodeMachine.Text
