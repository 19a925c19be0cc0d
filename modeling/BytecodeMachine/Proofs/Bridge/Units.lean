import BytecodeMachine.Text.Units

namespace BytecodeMachine.Text

theorem toNat_toUInt16 {n : Nat} (h : n < 0x10000) : n.toUInt16.toNat = n := by
  simp [Nat.toUInt16, UInt16.toNat_ofNat', Nat.mod_eq_of_lt h]

theorem char_bounds (c : Char) :
    c.toNat < 0xD800 ∨ 0xDFFF < c.toNat ∧ c.toNat < 0x110000 := c.valid

theorem chars_of_single {u : UInt16} (hu : isHigh u = false) (us : List UInt16) :
    chars (u :: us) = single u :: chars us := by
  cases us with
  | nil => rfl
  | cons v us => simp [chars, hu]

theorem chars_of_pair {u v : UInt16} (hu : isHigh u = true) (hv : isLow v = true)
    (us : List UInt16) : chars (u :: v :: us) = pair u v :: chars us := by
  simp [chars, hu, hv]

theorem single_unit {c : Char} (h : c.toNat < 0x10000) :
    isHigh c.toNat.toUInt16 = false ∧ single c.toNat.toUInt16 = c := by
  have hb := char_bounds c
  have hn := toNat_toUInt16 h
  have high : isHigh c.toNat.toUInt16 = false := by
    simp only [isHigh, hn, Bool.and_eq_false_iff, decide_eq_false_iff_not]
    omega
  have low : isLow c.toNat.toUInt16 = false := by
    simp only [isLow, hn, Bool.and_eq_false_iff, decide_eq_false_iff_not]
    omega
  refine ⟨high, ?_⟩
  rw [single, high, low, hn, Char.ofNat_toNat]
  rfl

theorem pair_units {c : Char} {u v : UInt16} (h : ¬ c.toNat < 0x10000)
    (hu : u.toNat = 0xD800 + (c.toNat - 0x10000) / 0x400)
    (hv : v.toNat = 0xDC00 + (c.toNat - 0x10000) % 0x400) :
    isHigh u = true ∧ isLow v = true ∧ pair u v = c := by
  have hb := char_bounds c
  refine ⟨?_, ?_, ?_⟩
  · simp only [isHigh, hu, Bool.and_eq_true, decide_eq_true_eq]
    omega
  · simp only [isLow, hv, Bool.and_eq_true, decide_eq_true_eq]
    omega
  · have hn : 0x10000 + (u.toNat - 0xD800) * 0x400 + (v.toNat - 0xDC00) = c.toNat := by omega
    rw [pair, hn, Char.ofNat_toNat]

theorem chars_units (cs : List Char) : chars (units cs) = cs := by
  induction cs with
  | nil => rfl
  | cons c cs ih =>
    by_cases h : c.toNat < 0x10000
    · obtain ⟨high, hc⟩ := single_unit h
      rw [units, if_pos h, chars_of_single high, hc, ih]
    · have hb := char_bounds c
      obtain ⟨high, low, hc⟩ := pair_units h
        (toNat_toUInt16 (n := 0xD800 + (c.toNat - 0x10000) / 0x400) (by omega))
        (toNat_toUInt16 (n := 0xDC00 + (c.toNat - 0x10000) % 0x400) (by omega))
      rw [units, if_neg h, chars_of_pair high low, hc, ih]

end BytecodeMachine.Text
