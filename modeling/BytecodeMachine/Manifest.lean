import BytecodeMachine.Text.Blank

namespace BytecodeMachine

structure Manifest where
  attributes : List (String × String)
  deriving DecidableEq, Repr

namespace Manifest

def splitOn (mark : Char) : List Char → List (List Char)
  | [] => [[]]
  | c :: cs =>
      if c = mark then [] :: splitOn mark cs
      else match splitOn mark cs with
        | [] => [[c]]
        | piece :: rest => (c :: piece) :: rest

def dropReturn (line : List Char) : List Char :=
  if line.getLast? = some '\r' then line.dropLast else line

/-- Lines end at line feeds, each with a carriage return before it if there is one. -/
def lines (cs : List Char) : List (List Char) :=
  let pieces := splitOn '\n' cs
  let whole := pieces.dropLast.map dropReturn
  match pieces.getLast? with
  | some [] | none => whole
  | some last => whole ++ [last]

def splitFirst (mark : Char) (cs : List Char) : Option (List Char × List Char) :=
  match cs.dropWhile (· ≠ mark) with
  | [] => none
  | _ :: after => some (cs.takeWhile (· ≠ mark), after)

def attribute? (line : List Char) : Option (List Char × List Char) :=
  (splitFirst ':' line).map fun (name, value) => (Text.trim name, Text.trim value)

def extend (more : List Char) : List (List Char × List Char) → List (List Char × List Char)
  | [] => []
  | (name, value) :: rest => (name, value ++ more) :: rest

def mainLines (cs : List Char) : List (List Char) :=
  ((lines cs).map dropReturn).takeWhile fun line => !line.isEmpty

/-- Attributes with the last one first. -/
def collect (read : List (List Char × List Char)) :
    List (List Char) → List (List Char × List Char)
  | [] => read
  | (' ' :: more) :: rest => collect (extend more read) rest
  | line :: rest =>
      match attribute? line with
      | some a => collect (a :: read) rest
      | none => collect read rest

def ofChars (cs : List Char) : Manifest where
  attributes :=
    (collect [] (mainLines cs)).reverse.map fun (name, value) =>
      (String.ofList name, String.ofList value)

def skippedLines (text : String) : List String :=
  ((mainLines text.toList).filter fun line =>
    line.head? ≠ some ' ' && (attribute? line).isNone).map String.ofList

def parse (text : String) : Manifest := ofChars text.toList

def lower (s : String) : List Char := s.toList.map Char.toLower

def sameName (a b : String) : Bool := lower a = lower b

def get? (m : Manifest) (name : String) : Option String :=
  (m.attributes.find? fun a => sameName a.1 name).map (·.2)

def suiteName (n : Nat) : String := "MIDlet-" ++ toString n

theorem toLower_of_isDigit {c : Char} (h : c.isDigit = true) : c.toLower = c := by
  simp only [Char.isDigit, Bool.and_eq_true, decide_eq_true_eq] at h
  have hupper : ¬ 'A'.val ≤ c.val := UInt32.not_le.2 (UInt32.lt_of_le_of_lt h.2 (by decide))
  exact dif_neg fun hc => hupper hc.1

theorem lower_suiteName (n : Nat) :
    lower (suiteName n) = lower "MIDlet-" ++ Nat.toDigits 10 n := by
  have hdigits : (Nat.toDigits 10 n).map Char.toLower = Nat.toDigits 10 n := by
    refine (List.map_congr_left fun c hc => ?_).trans (List.map_id _)
    exact toLower_of_isDigit (Nat.isDigit_of_mem_toDigits (by decide) (by decide) hc)
  simp only [lower, suiteName, String.toList_append, List.map_append,
    Nat.toString_eq_ofList_toDigits, String.toList_ofList, hdigits]

theorem eq_of_lower_suiteName {n k : Nat} (h : lower (suiteName n) = lower (suiteName k)) : n = k := by
  rw [lower_suiteName, lower_suiteName, List.append_cancel_left_eq] at h
  rw [← Nat.ofDigitChars_ten_toDigits (n := n), h, Nat.ofDigitChars_ten_toDigits]

def suiteClass? (value : String) : Option String :=
  match (splitOn ',' value.toList)[2]? with
  | none => none
  | some field =>
      match Text.trim field with
      | [] => none
      | name => some (String.ofList name)

def IsSuiteFrom (n : Nat) (name : String) : Prop := ∃ k, n ≤ k ∧ sameName name (suiteName k)

theorem isSuiteFrom_of_succ {n : Nat} {name : String} (h : IsSuiteFrom (n + 1) name) :
    IsSuiteFrom n name :=
  h.imp fun _ hk => ⟨Nat.le_of_succ_le hk.1, hk.2⟩

theorem not_isSuiteFrom_succ {n : Nat} {name : String} (h : sameName name (suiteName n)) :
    ¬IsSuiteFrom (n + 1) name := by
  rintro ⟨k, hk, hsame⟩
  have hlower := (of_decide_eq_true h).symm.trans (of_decide_eq_true hsame)
  exact absurd (eq_of_lower_suiteName hlower) (Nat.ne_of_lt hk)

open Classical in
noncomputable def suitesLeft (m : Manifest) (n : Nat) : Nat :=
  m.attributes.countP fun a => decide (IsSuiteFrom n a.1)

theorem suitesLeft_succ_lt {m : Manifest} {n : Nat} {value : String}
    (h : m.get? (suiteName n) = some value) : m.suitesLeft (n + 1) < m.suitesLeft n := by
  classical
  obtain ⟨a, ha, -⟩ := Option.map_eq_some_iff.1 h
  obtain ⟨hname, above, below, hm, -⟩ := List.find?_eq_some_iff_append.1 ha
  have hnow : IsSuiteFrom n a.1 := ⟨n, Nat.le_refl n, hname⟩
  have others (l : List (String × String)) : l.countP (fun a => decide (IsSuiteFrom (n + 1) a.1)) ≤
      l.countP fun a => decide (IsSuiteFrom n a.1) :=
    List.countP_mono_left fun b _ hb => decide_eq_true (isSuiteFrom_of_succ (of_decide_eq_true hb))
  simp only [suitesLeft, hm, List.countP_append, List.countP_cons, hnow,
    not_isSuiteFrom_succ hname, decide_true, decide_false, if_true, Bool.false_eq_true, if_false]
  have habove := others above
  have hbelow := others below
  omega

def suitesFrom (m : Manifest) (n : Nat) : List (String × String) :=
  match h : m.get? (suiteName n) with
  | none => []
  | some value => (suiteName n, value) :: m.suitesFrom (n + 1)
termination_by m.suitesLeft n
decreasing_by exact suitesLeft_succ_lt h

def suites (m : Manifest) : List (String × String) :=
  m.suitesFrom 1

def entryPoints (m : Manifest) : List String :=
  (m.get? "Main-Class").toList ++ m.suites.filterMap fun s => suiteClass? s.2

def suitesWithoutClass (m : Manifest) : List (String × String) :=
  m.suites.filter fun s => (suiteClass? s.2).isNone

end Manifest

end BytecodeMachine
