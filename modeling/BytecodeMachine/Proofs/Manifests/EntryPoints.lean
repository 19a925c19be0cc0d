import BytecodeMachine.Proofs.Manifests
import Mathlib.Data.List.Forall2

namespace BytecodeMachine.Manifest

variable {m : Manifest} {name value : String} {n turns turns' : Nat} {found result result' : List String}

section Fields

variable {mark : Char} {cs field piece rest : List Char} {i : Nat}

theorem splitOn_of_not_mem (h : mark ∉ cs) : splitOn mark cs = [cs] := by
  induction cs with
  | nil => rfl
  | cons c cs ih =>
    obtain ⟨hc, hcs⟩ := not_or.1 (mt List.mem_cons.2 h)
    rw [splitOn, if_neg (Ne.symm hc), ih hcs]

theorem splitOn_append (h : mark ∉ piece) (rest : List Char) :
    splitOn mark (piece ++ mark :: rest) = piece :: splitOn mark rest := by
  induction piece with
  | nil => rw [List.nil_append, splitOn, if_pos rfl]
  | cons c cs ih =>
    obtain ⟨hc, hcs⟩ := not_or.1 (mt List.mem_cons.2 h)
    rw [List.cons_append, splitOn, if_neg (Ne.symm hc), ih hcs]

theorem splitOn_cases (mark : Char) (cs : List Char) : mark ∉ cs ∧ splitOn mark cs = [cs] ∨
    ∃ piece rest, cs = piece ++ mark :: rest ∧ mark ∉ piece ∧
      splitOn mark cs = piece :: splitOn mark rest := by
  by_cases h : mark ∈ cs
  · obtain ⟨piece, rest, rfl, hpiece⟩ := List.eq_append_cons_of_mem h
    exact .inr ⟨piece, rest, rfl, hpiece, splitOn_append hpiece rest⟩
  · exact .inl ⟨h, splitOn_of_not_mem h⟩

theorem splitOn_zero_eq_some_iff : (splitOn mark cs)[0]? = some field ↔
    ∃ after, cs = field ++ after ∧ mark ∉ field ∧ ∀ c ∈ after.head?, c = mark := by
  constructor
  · intro h
    obtain ⟨hcs, hs⟩ | ⟨piece, rest, rfl, hpiece, hs⟩ := splitOn_cases mark cs
    all_goals
      rw [hs] at h
      cases h
    · exact ⟨[], (List.append_nil _).symm, hcs, nofun⟩
    · exact ⟨mark :: rest, rfl, hpiece, fun c hc => (Option.some.inj hc).symm⟩
  · rintro ⟨after, rfl, hfield, hafter⟩
    cases after with
    | nil => rw [List.append_nil, splitOn_of_not_mem hfield]; rfl
    | cons c after =>
      obtain rfl := hafter c rfl
      rw [splitOn_append hfield]
      rfl

theorem splitOn_succ_eq_some_iff : (splitOn mark cs)[i + 1]? = some field ↔
    ∃ piece rest, cs = piece ++ mark :: rest ∧ mark ∉ piece ∧
      (splitOn mark rest)[i]? = some field := by
  constructor
  · intro h
    obtain ⟨-, hs⟩ | ⟨piece, rest, rfl, hpiece, hs⟩ := splitOn_cases mark cs
    all_goals rw [hs, List.getElem?_cons_succ] at h
    · cases h
    · exact ⟨piece, rest, rfl, hpiece, h⟩
  · rintro ⟨piece, rest, rfl, hpiece, h⟩
    rw [splitOn_append hpiece, List.getElem?_cons_succ]
    exact h

end Fields

-- Latin letters are one letter whatever their case; anything else is the same only as itself.
def SameLetter (c d : Char) : Prop :=
  c = d ∨ 'A' ≤ c ∧ c ≤ 'Z' ∧ d.toNat = c.toNat + 32 ∨ 'A' ≤ d ∧ d ≤ 'Z' ∧ c.toNat = d.toNat + 32

def SameName (a b : String) : Prop := List.Forall₂ SameLetter a.toList b.toList

theorem toNat_toLower (c : Char) :
    c.toLower.toNat = if 'A' ≤ c ∧ c ≤ 'Z' then c.toNat + 32 else c.toNat := by
  unfold Char.toLower
  split
  · rename_i h
    rw [if_pos ⟨h.1, h.2⟩]
    have hval : c.val.toNat ≤ 90 := h.2
    change (c.val + 32).toNat = c.val.toNat + 32
    rw [UInt32.toNat_add]
    exact Nat.mod_eq_of_lt (Nat.lt_of_le_of_lt (Nat.add_le_add_right hval 32) (by decide))
  · rename_i h
    exact (if_neg fun hc => h ⟨hc.1, hc.2⟩).symm

theorem toLower_eq_iff {c d : Char} : c.toLower = d.toLower ↔ SameLetter c d := by
  have hA (c : Char) : 'A' ≤ c ↔ 65 ≤ c.toNat := Iff.rfl
  have hZ (c : Char) : c ≤ 'Z' ↔ c.toNat ≤ 90 := Iff.rfl
  simp only [SameLetter, ← Char.toNat_inj, toNat_toLower, hA, hZ]
  split <;> split <;> omega

theorem sameName_iff {a b : String} : sameName a b ↔ SameName a b := by
  rw [sameName, decide_eq_true_eq, lower, lower, ← List.forall₂_eq_eq_eq]
  simp only [List.forall₂_map_left_iff, List.forall₂_map_right_iff, SameName, toLower_eq_iff]

def Holds (m : Manifest) (name value : String) : Prop :=
  ∃ above key below, m.attributes = above ++ (key, value) :: below ∧ SameName key name ∧
    ∀ a ∈ above, ¬SameName a.1 name

theorem get?_eq_some_iff : m.get? name = some value ↔ m.Holds name value := by
  simp only [get?, Option.map_eq_some_iff, List.find?_eq_some_iff_append, Holds, Prod.exists,
    ← sameName_iff]
  constructor
  · rintro ⟨key, _, ⟨hname, above, below, hm, habove⟩, rfl⟩
    exact ⟨above, key, below, hm, hname, by simpa using habove⟩
  · rintro ⟨above, key, below, hm, hname, habove⟩
    exact ⟨key, value, ⟨hname, above, below, hm, by simpa using habove⟩, rfl⟩

theorem get?_eq_none_iff : m.get? name = none ↔ ∀ value, ¬m.Holds name value := by
  simp only [← get?_eq_some_iff, Option.eq_none_iff_forall_ne_some, ne_eq]

def suiteKey (n : Nat) : String := "MIDlet-" ++ String.ofList (Nat.toDigits 10 n)

theorem suiteName_eq (n : Nat) : suiteName n = suiteKey n := by
  rw [suiteName, suiteKey, Nat.toString_eq_ofList_toDigits]

def spaces : List Nat :=
  [0x9, 0xA, 0xB, 0xC, 0xD, 0x20, 0x85, 0xA0, 0x1680, 0x2000, 0x2001, 0x2002, 0x2003, 0x2004,
    0x2005, 0x2006, 0x2007, 0x2008, 0x2009, 0x200A, 0x2028, 0x2029, 0x202F, 0x205F, 0x3000]

theorem spaces_eq :
    spaces = Text.blankRanges.flatMap fun r => List.range' r.1 (r.2 + 1 - r.1) := rfl

theorem isBlank_iff {c : Char} : Text.isBlank c = true ↔ c.toNat ∈ spaces := by
  simp only [Text.isBlank, List.any_eq_true, Bool.and_eq_true, decide_eq_true_eq, spaces_eq,
    List.mem_flatMap, List.mem_range'_1]
  refine exists_congr fun r => and_congr_right fun _ => ?_
  omega

-- The name is what is left of the field without the white space around it.
structure Bares (field name : List Char) : Prop where
  within : ∃ before after, field = before ++ name ++ after ∧
    (∀ c ∈ before, c.toNat ∈ spaces) ∧ ∀ c ∈ after, c.toNat ∈ spaces
  first : ∀ c ∈ name.head?, c.toNat ∉ spaces
  last : ∀ c ∈ name.getLast?, c.toNat ∉ spaces

theorem trim_eq_iff {field name : List Char} : Text.trim field = name ↔ Bares field name := by
  have solid (c : Char) : Text.Solid c ↔ c.toNat ∉ spaces := by
    rw [Text.Solid, ← Bool.not_eq_true, isBlank_iff]
  constructor
  · rintro rfl
    obtain ⟨before, after, h, hbefore, hafter⟩ := Text.exists_eq_append_trim field
    exact ⟨⟨before, after, h, fun c hc => isBlank_iff.1 (hbefore c hc),
      fun c hc => isBlank_iff.1 (hafter c hc)⟩,
      fun c hc => (solid c).1 (Text.solid_of_head?_trim field c hc),
      fun c hc => (solid c).1 (Text.solid_of_getLast?_trim field c hc)⟩
  · rintro ⟨⟨before, after, rfl, hbefore, hafter⟩, hfirst, hlast⟩
    exact Text.trim_eq (fun c hc => isBlank_iff.2 (hbefore c hc))
      (fun c hc => isBlank_iff.2 (hafter c hc)) (fun c hc => (solid c).2 (hfirst c hc))
      fun c hc => (solid c).2 (hlast c hc)

def NamesClass (value name : String) : Prop :=
  ∃ first second field after, value.toList = first ++ ',' :: (second ++ ',' :: (field ++ after)) ∧
    ',' ∉ first ∧ ',' ∉ second ∧ ',' ∉ field ∧ (∀ c ∈ after.head?, c = ',') ∧
    Bares field name.toList ∧ name ≠ ""

theorem suiteClass?_eq_some : suiteClass? value = some name ↔
    ∃ field, (splitOn ',' value.toList)[2]? = some field ∧ Bares field name.toList ∧
      name ≠ "" := by
  unfold suiteClass?
  cases (splitOn ',' value.toList)[2]? with
  | none => simp
  | some field =>
    simp only [Option.some.injEq, exists_eq_left', ← trim_eq_iff]
    split
    · rename_i hnil
      rw [hnil]
      exact ⟨nofun, fun h => absurd (String.toList_eq_nil_iff.1 h.1.symm) h.2⟩
    · rename_i hne
      constructor
      · rintro ⟨⟩
        rw [String.toList_ofList]
        exact ⟨rfl, fun he => hne (String.ofList_eq_empty_iff.1 he)⟩
      · rintro ⟨hname, -⟩
        rw [hname, String.ofList_toList]

theorem suiteClass?_eq_some_iff : suiteClass? value = some name ↔ NamesClass value name := by
  simp only [suiteClass?_eq_some, splitOn_succ_eq_some_iff, splitOn_zero_eq_some_iff]
  constructor
  · rintro ⟨field, ⟨first, _, hvalue, hfirst, second, _, rfl, hsecond, after, rfl, hfield, hafter⟩,
      hname⟩
    exact ⟨first, second, field, after, hvalue, hfirst, hsecond, hfield, hafter, hname⟩
  · rintro ⟨first, second, field, after, hvalue, hfirst, hsecond, hfield, hafter, hname⟩
    exact ⟨field, ⟨first, _, hvalue, hfirst, second, _, rfl, hsecond, after, rfl, hfield, hafter⟩,
      hname⟩

inductive Counts (m : Manifest) : Nat → List String → Nat → List String → Prop
  | missing {n : Nat} {found : List String} (h : ∀ value, ¬m.Holds (suiteKey n) value) :
      Counts m n found 1 found
  | named {n turns : Nat} {found result : List String} {value name : String}
      (h : m.Holds (suiteKey n) value) (hc : NamesClass value name)
      (hs : Counts m (n + 1) (found ++ [name]) turns result) : Counts m n found (turns + 1) result
  | unnamed {n turns : Nat} {found result : List String} {value : String}
      (h : m.Holds (suiteKey n) value) (hc : ∀ name, ¬NamesClass value name)
      (hs : Counts m (n + 1) found turns result) : Counts m n found (turns + 1) result

theorem counts_suitesFrom (m : Manifest) (n : Nat) (found : List String) :
    m.Counts n found ((m.suitesFrom n).length + 1)
      (found ++ (m.suitesFrom n).filterMap fun s => suiteClass? s.2) := by
  fun_induction m.suitesFrom n generalizing found with
  | case1 n h =>
    rw [List.filterMap_nil, List.append_nil]
    rw [suiteName_eq] at h
    exact .missing (get?_eq_none_iff.1 h)
  | case2 n value h ih =>
    rw [suiteName_eq] at h
    cases hc : suiteClass? value with
    | none =>
      simp only [List.filterMap_cons, hc]
      refine .unnamed (get?_eq_some_iff.1 h) (fun name hn => ?_) (ih found)
      rw [suiteClass?_eq_some_iff.2 hn] at hc
      cases hc
    | some name =>
      simp only [List.filterMap_cons, hc]
      rw [List.append_cons]
      exact .named (get?_eq_some_iff.1 h) (suiteClass?_eq_some_iff.1 hc) (ih _)

theorem Holds.unique {value' : String} (h : m.Holds name value) (h' : m.Holds name value') :
    value = value' :=
  Option.some.inj ((get?_eq_some_iff.2 h).symm.trans (get?_eq_some_iff.2 h'))

theorem NamesClass.unique {name' : String} (h : NamesClass value name)
    (h' : NamesClass value name') : name = name' :=
  Option.some.inj ((suiteClass?_eq_some_iff.2 h).symm.trans (suiteClass?_eq_some_iff.2 h'))

theorem Counts.unique (h : m.Counts n found turns result) (h' : m.Counts n found turns' result') :
    turns = turns' ∧ result = result' := by
  induction h generalizing turns' with
  | missing hnone =>
    cases h' with
    | missing => exact ⟨rfl, rfl⟩
    | named h => exact absurd h (hnone _)
    | unnamed h => exact absurd h (hnone _)
  | named hv hc _ ih =>
    cases h' with
    | missing hnone => exact absurd hv (hnone _)
    | named hv' hc' hs =>
      obtain rfl := hv.unique hv'
      obtain rfl := hc.unique hc'
      exact (ih hs).imp_left (congrArg (· + 1))
    | unnamed hv' hc' =>
      obtain rfl := hv.unique hv'
      exact absurd hc (hc' _)
  | unnamed hv hc _ ih =>
    cases h' with
    | missing hnone => exact absurd hv (hnone _)
    | named hv' hc' =>
      obtain rfl := hv.unique hv'
      exact absurd hc' (hc _)
    | unnamed hv' _ hs => exact (ih hs).imp_left (congrArg (· + 1))

theorem length_suitesFrom_le (m : Manifest) (n : Nat) : (m.suitesFrom n).length ≤ m.suitesLeft n := by
  fun_induction m.suitesFrom n with
  | case1 => exact Nat.zero_le _
  | case2 n value h ih => exact Nat.lt_of_le_of_lt ih (suitesLeft_succ_lt h)

theorem get?_past_suitesFrom (m : Manifest) (n : Nat) :
    m.get? (suiteKey (n + (m.suitesFrom n).length)) = none := by
  fun_induction m.suitesFrom n with
  | case1 n h => rwa [← suiteName_eq]
  | case2 n value h ih => rwa [List.length_cons, ← Nat.succ_add_eq_add_succ]

theorem exists_get?_suitesFrom (m : Manifest) (n : Nat) {i : Nat} (hi : n ≤ i)
    (hlt : i < n + (m.suitesFrom n).length) : ∃ value, m.get? (suiteKey i) = some value := by
  fun_induction m.suitesFrom n with
  | case1 => exact absurd hi (Nat.not_le.2 hlt)
  | case2 n value h ih =>
    rcases Nat.eq_or_lt_of_le hi with rfl | hi
    · exact ⟨value, by rwa [← suiteName_eq]⟩
    · exact ih hi (by rwa [List.length_cons, ← Nat.succ_add_eq_add_succ] at hlt)

theorem filterMap_suitesFrom (m : Manifest) (n : Nat) :
    ((m.suitesFrom n).filterMap fun s => suiteClass? s.2) =
      (List.range' n (m.suitesFrom n).length).filterMap fun i =>
        (m.get? (suiteKey i)).bind suiteClass? := by
  fun_induction m.suitesFrom n with
  | case1 => rfl
  | case2 n value h ih =>
    rw [List.length_cons, List.range'_succ, List.filterMap_cons, List.filterMap_cons,
      ← suiteName_eq, h, ih]
    rfl

-- No number that is reached is greater than one more than there are attributes.
theorem entry_points_counted (m : Manifest) :
    ∃ last ≤ m.attributes.length,
      (∀ n, 1 ≤ n → n ≤ last → ∃ value, m.Holds (suiteKey n) value) ∧
      (∀ value, ¬m.Holds (suiteKey (last + 1)) value) ∧
      (∀ turns found, m.Counts 1 (m.get? "Main-Class").toList turns found ↔
        turns = last + 1 ∧ found = m.entryPoints) ∧
      m.entryPoints = (m.get? "Main-Class").toList ++
        (List.range' 1 last).filterMap (fun n => (m.get? (suiteKey n)).bind suiteClass?) ∧
      (∀ name value, m.get? name = some value ↔ m.Holds name value) ∧
      ∀ value name, suiteClass? value = some name ↔ NamesClass value name := by
  have hcounts := m.counts_suitesFrom 1 (m.get? "Main-Class").toList
  refine ⟨m.suites.length, (m.length_suitesFrom_le 1).trans List.countP_le_length, fun n hn hle => ?_,
    ?_, fun turns found => ⟨fun h => h.unique hcounts, ?_⟩, ?_, fun _ _ => get?_eq_some_iff,
    fun _ _ => suiteClass?_eq_some_iff⟩
  · obtain ⟨value, hv⟩ := m.exists_get?_suitesFrom 1 hn (by rw [← suites]; omega)
    exact ⟨value, get?_eq_some_iff.1 hv⟩
  · rw [← get?_eq_none_iff, Nat.add_comm]
    exact m.get?_past_suitesFrom 1
  · rintro ⟨rfl, rfl⟩
    exact hcounts
  · rw [entryPoints, suites, filterMap_suitesFrom]

end BytecodeMachine.Manifest
