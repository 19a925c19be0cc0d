import BytecodeMachine.Proofs.Integers

namespace BytecodeMachine

variable {default target : Nat} {low key : Int32} {targets : List Nat} {pairs : List (Int32 × Nat)}

-- The pair of a target at a place of a table, unless its key would be greater than all others.
def tablePair? (low : Int32) : Nat × Nat → Option (Int32 × Nat)
  | (target, i) =>
    if low.toInt + i ≤ Int32.maxValue.toInt then some (.ofInt (low.toInt + i), target) else none

def tablePairs (low : Int32) (targets : List Nat) : List (Int32 × Nat) :=
  targets.zipIdx.filterMap (tablePair? low)

def IsTarget (default : Nat) (pairs : List (Int32 × Nat)) (key : Int32) (target : Nat) : Prop :=
  (∃ above below, pairs = above ++ (key, target) :: below ∧ ∀ p ∈ above, p.1 ≠ key) ∨
    target = default ∧ ∀ p ∈ pairs, p.1 ≠ key

theorem lookupTarget_eq_iff : lookupTarget default pairs key = target ↔
    IsTarget default pairs key target := by
  unfold lookupTarget IsTarget
  split
  · rename_i k found h
    obtain ⟨hk, above, below, rfl, habove⟩ := List.find?_eq_some_iff_append.1 h
    obtain rfl : k = key := of_decide_eq_true hk
    constructor
    · rintro rfl
      exact .inl ⟨above, below, rfl, by simpa using habove⟩
    · rintro (⟨above', below', hpairs, habove'⟩ | ⟨-, hnone⟩)
      · rw [hpairs, List.find?_append, List.find?_eq_none.2 (by simpa using habove')] at h
        simpa using h.symm
      · exact absurd rfl (hnone (k, found) (by simp))
  · rename_i h
    have hnone : ∀ p ∈ pairs, p.1 ≠ key := by simpa using h
    constructor
    · rintro rfl
      exact .inr ⟨rfl, hnone⟩
    · rintro (⟨above, below, rfl, -⟩ | ⟨rfl, -⟩)
      · exact absurd rfl (hnone (key, target) (by simp))
      · rfl

theorem lookupTarget_cons (default : Nat) (k : Int32) (target : Nat) (pairs : List (Int32 × Nat))
    (key : Int32) : lookupTarget default ((k, target) :: pairs) key =
      if k = key then target else lookupTarget default pairs key := by
  unfold lookupTarget
  by_cases h : k = key <;> simp [h]

theorem toInt_ofInt_add {i : Nat} (h : low.toInt + i ≤ Int32.maxValue.toInt) :
    (Int32.ofInt (low.toInt + i)).toInt = low.toInt + i := by
  have hlow := low.le_toInt
  exact Int32.toInt_ofInt_of_le (by omega) (Int.lt_of_le_of_lt h (by decide))

-- The table from a place on.
theorem lookupTarget_zipIdx (default : Nat) (low key : Int32) (targets : List Nat) (k : Nat) :
    lookupTarget default ((targets.zipIdx k).filterMap (tablePair? low)) key =
      if key.toInt < low.toInt + k then default
      else (targets[(key.toInt - low.toInt - k).toNat]?).getD default := by
  induction targets generalizing k with
  | nil => simp [lookupTarget]
  | cons target targets ih =>
    rw [List.zipIdx_cons, List.filterMap_cons, tablePair?]
    by_cases hk : low.toInt + k ≤ Int32.maxValue.toInt
    · have hint := toInt_ofInt_add hk
      simp only [if_pos hk]
      rw [lookupTarget_cons, ih, Nat.cast_succ]
      by_cases h : Int32.ofInt (low.toInt + k) = key
      · have hzero : key.toInt - low.toInt - k = 0 := by rw [← h, hint]; omega
        rw [if_pos h, if_neg (by omega), hzero]
        rfl
      · have hne : key.toInt ≠ low.toInt + k := fun he => h (Int32.toInt_inj.1 (hint.trans he.symm))
        rw [if_neg h]
        by_cases hlt : key.toInt < low.toInt + k
        · rw [if_pos (by omega), if_pos hlt]
        · have hsucc : (key.toInt - low.toInt - k).toNat =
              (key.toInt - low.toInt - (k + 1)).toNat + 1 := by omega
          rw [if_neg (by omega), if_neg hlt, hsucc, List.getElem?_cons_succ]
    · -- No key is as great as those of the targets that are left.
      have hkey := key.toInt_le
      simp only [if_neg hk]
      rw [ih, if_pos (by omega), if_pos (by omega)]

theorem toInt_sub_toInt64 (key low : Int32) :
    (key.toInt64 - low.toInt64).toInt = key.toInt - low.toInt := by
  have hkey := key.le_toInt
  have hkey' := key.toInt_lt
  have hlow := low.le_toInt
  have hlow' := low.toInt_lt
  rw [Int64.toInt_sub, Int32.toInt_toInt64, Int32.toInt_toInt64]
  exact Int.bmod_eq_of_le (by omega) (by omega)

theorem tableTarget_eq (default : Nat) (low : Int32) (targets : List Nat) (key : Int32) :
    tableTarget default low targets key = lookupTarget default (tablePairs low targets) key := by
  have hneg : key.toInt - low.toInt < 0 ↔ key.toInt < low.toInt := by omega
  rw [tablePairs, lookupTarget_zipIdx, tableTarget]
  simp only [Int64.lt_iff_toInt_lt, toInt_sub_toInt64, Int64.toInt_zero, hneg, Nat.cast_zero,
    Int.add_zero, Int.sub_zero]

theorem tableTarget_eq_iff : tableTarget default low targets key = target ↔
    (∃ i : Nat, targets[i]? = some target ∧ key.toInt = low.toInt + i) ∨
      target = default ∧ ∀ i : Nat, i < targets.length → key.toInt ≠ low.toInt + i := by
  simp only [tableTarget, Int64.lt_iff_toInt_lt, toInt_sub_toInt64, Int64.toInt_zero]
  by_cases hlt : key.toInt - low.toInt < 0
  · rw [if_pos hlt]
    constructor
    · rintro rfl
      exact .inr ⟨rfl, fun i _ => by omega⟩
    · rintro (⟨i, -, hi⟩ | ⟨rfl, -⟩)
      · omega
      · rfl
  · obtain ⟨place, hplace⟩ := Int.eq_ofNat_of_zero_le (Int.not_lt.1 hlt)
    have hkey (i : Nat) : key.toInt = low.toInt + i ↔ i = place := by omega
    rw [if_neg hlt, hplace]
    simp only [Int.toNat_natCast, hkey, ne_eq, exists_eq_right]
    cases hget : targets[place]? with
    | none =>
      have hle := List.getElem?_eq_none_iff.1 hget
      constructor
      · rintro rfl
        exact .inr ⟨rfl, fun i hi => by omega⟩
      · rintro (h | ⟨rfl, -⟩)
        · cases h
        · rfl
    | some found =>
      have hplace := (List.getElem?_eq_some_iff.1 hget).1
      constructor
      · rintro rfl
        exact .inl rfl
      · rintro (h | ⟨-, h⟩)
        · exact Option.some.inj h
        · exact absurd rfl (h place hplace)

-- There is no key for a second target.
example : tablePairs Int32.maxValue [4, 7] = [(Int32.maxValue, 4)] := by decide

namespace Instruction

open Exec

def Jumps (i : Instruction) (key : Int32) (target : Nat) : Prop :=
  ∀ (e : Engine) (t : Thread) (f : Frame) (rest : List Frame) (below : List Value),
    t.frames = f :: rest → f.stack = .int key :: below →
      (execute e i).on t =
        pure (.ok (), { t with frames := { f with stack := below, pc := target } :: rest })

theorem Jumps.unique {i : Instruction} {target' : Nat} (h : i.Jumps key target)
    (h' : i.Jumps key target') : target = target' := by
  let f : Frame := { Frame.blank with stack := [.int key] }
  let t : Thread := { Thread.start 1 "main" with frames := [f] }
  have heq := (h .standard t f [] [] rfl rfl).symm.trans (h' .standard t f [] [] rfl rfl)
  injection heq with heq
  simpa using heq

theorem execute_tableSwitch (e : Engine) (default : Nat) (low : Int32) (targets : List Nat) :
    execute e (.tableSwitch default low targets) =
      execute e (.lookupSwitch default (tablePairs low targets)) := by
  change inFrame (FrameM.popInt >>= fun key => FrameM.jump (tableTarget default low targets key)) = _
  simp only [tableTarget_eq]
  rfl

theorem jumps_lookupSwitch (default : Nat) (pairs : List (Int32 × Nat)) (key : Int32) :
    Jumps (.lookupSwitch default pairs) key (lookupTarget default pairs key) := by
  intro e t f rest below ht hs
  change (inFrame (FrameM.popInt >>= fun key => FrameM.jump (lookupTarget default pairs key))).on t = _
  rw [on_inFrame _ ht, FrameM.run_bind, FrameM.takes_popInt key f below hs]
  rfl

theorem jumps_lookupSwitch_iff : Jumps (.lookupSwitch default pairs) key target ↔
    IsTarget default pairs key target := by
  rw [← lookupTarget_eq_iff]
  constructor
  · exact (jumps_lookupSwitch default pairs key).unique
  · rintro rfl
    exact jumps_lookupSwitch default pairs key

theorem jumps_tableSwitch_iff : Jumps (.tableSwitch default low targets) key target ↔
    (∃ i : Nat, targets[i]? = some target ∧ key.toInt = low.toInt + i) ∨
      target = default ∧ ∀ i : Nat, i < targets.length → key.toInt ≠ low.toInt + i := by
  have hlist : Jumps (.tableSwitch default low targets) key target ↔
      Jumps (.lookupSwitch default (tablePairs low targets)) key target := by
    simp only [Jumps, execute_tableSwitch]
  rw [hlist, jumps_lookupSwitch_iff, ← lookupTarget_eq_iff, ← tableTarget_eq, tableTarget_eq_iff]

-- The difference of two keys is exact in 64 bits.
theorem switches_agree (default : Nat) :
    (∀ (e : Engine) (low : Int32) (targets : List Nat),
      execute e (.tableSwitch default low targets) =
        execute e (.lookupSwitch default (tablePairs low targets))) ∧
    (∀ (pairs : List (Int32 × Nat)) (key : Int32), ∃ target, IsTarget default pairs key target) ∧
    (∀ (pairs : List (Int32 × Nat)) (key : Int32) (target : Nat),
      Jumps (.lookupSwitch default pairs) key target ↔ IsTarget default pairs key target) ∧
    (∀ (low : Int32) (targets : List Nat) (key : Int32) (target : Nat),
      Jumps (.tableSwitch default low targets) key target ↔
        (∃ i : Nat, targets[i]? = some target ∧ key.toInt = low.toInt + i) ∨
          target = default ∧ ∀ i : Nat, i < targets.length → key.toInt ≠ low.toInt + i) ∧
    ∀ key low : Int32, (key.toInt64 - low.toInt64).toInt = key.toInt - low.toInt :=
  ⟨fun e => execute_tableSwitch e default, fun _ _ => ⟨_, lookupTarget_eq_iff.1 rfl⟩,
    fun _ _ _ => jumps_lookupSwitch_iff, fun _ _ _ _ => jumps_tableSwitch_iff, toInt_sub_toInt64⟩

end Instruction

end BytecodeMachine
