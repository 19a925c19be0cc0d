import BytecodeMachine.Manifest
import Mathlib.Data.List.DropRight

namespace BytecodeMachine

namespace Text

variable {t a b value more rest : List Char}

def Solid (c : Char) : Prop := isBlank c = false

instance (c : Char) : Decidable (Solid c) := inferInstanceAs (Decidable (isBlank c = false))

def Blank (cs : List Char) : Prop := ∀ c ∈ cs, isBlank c = true

theorem blank_nil : Blank [] := nofun

theorem dropWhile_eq_self {cs : List Char} (h : ∀ c ∈ cs.head?, Solid c) :
    cs.dropWhile isBlank = cs := by
  cases cs with
  | nil => rfl
  | cons c cs =>
    have hc : isBlank c = false := h c rfl
    exact List.dropWhile_cons_of_neg (by simp [hc])

theorem trim_eq (ha : Blank a) (hb : Blank b) (hfirst : ∀ c ∈ t.head?, Solid c)
    (hlast : ∀ c ∈ t.getLast?, Solid c) : trim (a ++ t ++ b) = t := by
  rw [trim, List.append_assoc, List.dropWhile_append_of_pos ha]
  cases t with
  | nil =>
    have hnil : b.dropWhile isBlank = [] := List.dropWhile_eq_nil_iff.2 hb
    rw [List.nil_append, hnil]
    rfl
  | cons c cs =>
    have hwhole : ((c :: cs) ++ b).dropWhile isBlank = (c :: cs) ++ b := dropWhile_eq_self hfirst
    rw [hwhole, List.reverse_append,
      List.dropWhile_append_of_pos fun x hx => hb x (List.mem_reverse.1 hx), dropWhile_eq_self,
      List.reverse_reverse]
    rwa [List.head?_reverse]

theorem exists_eq_append_trim (cs : List Char) :
    ∃ a b, cs = a ++ trim cs ++ b ∧ Blank a ∧ Blank b := by
  refine ⟨cs.takeWhile isBlank,
    ((cs.dropWhile isBlank).reverse.takeWhile isBlank).reverse, ?_,
    fun c => List.mem_takeWhile_imp, fun c hc => List.mem_takeWhile_imp (List.mem_reverse.1 hc)⟩
  rw [trim, List.append_assoc, ← List.reverse_append, List.takeWhile_append_dropWhile,
    List.reverse_reverse, List.takeWhile_append_dropWhile]

theorem solid_of_getLast?_trim (cs : List Char) : ∀ c ∈ (trim cs).getLast?, Solid c := by
  intro c hc
  rw [trim, List.getLast?_reverse] at hc
  have h := List.head?_dropWhile_not isBlank (cs.dropWhile isBlank).reverse
  rw [hc] at h
  exact h

theorem solid_of_head?_trim (cs : List Char) : ∀ c ∈ (trim cs).head?, Solid c := by
  intro c hc
  have hp : trim cs <+: cs.dropWhile isBlank := List.rdropWhile_prefix isBlank _
  have h := List.head?_dropWhile_not isBlank cs
  obtain ⟨tail, ht⟩ := hp
  cases hcs : trim cs with
  | nil => simp [hcs] at hc
  | cons d ds =>
    rw [hcs] at hc ht
    rw [← ht] at h
    cases hc
    exact h

theorem filter_trim (cs : List Char) :
    (trim cs).filter (!isBlank ·) = cs.filter (!isBlank ·) := by
  obtain ⟨a, b, h, ha, hb⟩ := exists_eq_append_trim cs
  have nothing {cs : List Char} (h : Blank cs) : cs.filter (!isBlank ·) = [] :=
    List.filter_eq_nil_iff.2 fun c hc => by simp [h c hc]
  conv_rhs => rw [h, List.filter_append, List.filter_append, nothing ha, nothing hb]
  simp

theorem Solid.ne {c d : Char} (hc : Solid c) (hd : isBlank d = true) : c ≠ d := by
  rintro rfl
  exact Bool.false_ne_true (hc.symm.trans hd)

theorem mem_getLast?_append {c : Char} {cs ds : List Char} (h : c ∈ ds.getLast?) :
    c ∈ (cs ++ ds).getLast? := by
  rw [List.getLast?_append, Option.mem_def.1 h]
  rfl

theorem eq_nil_of_solid {cs : List Char} (ha : ∀ c ∈ (cs ++ a).getLast?, Solid c) (hb : Blank a) :
    a = [] := by
  by_contra h
  have hlast : a.getLast h ∈ a.getLast? := List.getLast?_eq_getLast_of_ne_nil h
  exact (ha _ (mem_getLast?_append hlast)).ne (hb _ (List.getLast_mem h)) rfl

theorem trim_eq_nil_iff {cs : List Char} : trim cs = [] ↔ Blank cs := by
  constructor
  · intro h
    obtain ⟨a, b, hab, ha, hb⟩ := exists_eq_append_trim cs
    rw [h, List.append_nil] at hab
    rw [hab]
    exact List.forall_mem_append.2 ⟨ha, hb⟩
  · intro h
    simpa using trim_eq (t := []) h blank_nil nofun nofun

structure Seamless (value more : List Char) : Prop where
  last : ∀ c ∈ more.getLast?, Solid c
  first : Blank value → ∀ c ∈ more.head?, Solid c
  seam : more ≠ [] → ¬ Blank value → ∀ c ∈ value.getLast?, Solid c

-- White space at the end of a value comes to stand inside it.
theorem exists_trim_append (hv : ¬ Blank value) (hlast : ∀ c ∈ more.getLast?, Solid c)
    (hmore : more ≠ []) : ∃ a b, value = a ++ trim value ++ b ∧ Blank b ∧
      trim (value ++ more) = trim value ++ (b ++ more) := by
  obtain ⟨a, b, h, ha, hb⟩ := exists_eq_append_trim value
  refine ⟨a, b, h, hb, ?_⟩
  have htrim : trim value ≠ [] := fun h => hv (trim_eq_nil_iff.1 h)
  have hfirst := solid_of_head?_trim value
  generalize trim value = t at *
  have hwhole := trim_eq (t := t ++ (b ++ more)) ha blank_nil
    (by rwa [List.head?_append_of_ne_nil _ htrim]) (by
      intro c hc
      rw [← List.append_assoc, List.getLast?_append_of_ne_nil _ hmore] at hc
      exact hlast c hc)
  rw [h]
  simpa using hwhole

theorem Seamless.trim_append (h : Seamless value more) :
    trim (value ++ more) = trim value ++ more := by
  by_cases hmore : more = []
  · rw [hmore, List.append_nil, List.append_nil]
  by_cases hv : Blank value
  · rw [trim_eq_nil_iff.2 hv]
    simpa using trim_eq hv blank_nil (h.first hv) h.last
  · obtain ⟨a, b, hab, hb, htrim⟩ := exists_trim_append hv h.last hmore
    have hlast := h.seam hmore hv
    rw [hab] at hlast
    rw [htrim, eq_nil_of_solid hlast hb, List.nil_append]

-- Nothing that is added later makes up for a character that is lost.
theorem trim_append_iff : trim value ++ (more ++ rest) = trim (value ++ more) ↔
    Seamless value more ∧ rest = [] := by
  constructor
  · intro h
    have hlast := h ▸ solid_of_getLast?_trim (value ++ more)
    have hrest : Blank rest := by
      have hf := congrArg (List.filter (!isBlank ·)) h
      simp only [filter_trim, List.filter_append, ← List.append_assoc] at hf
      simpa [Blank] using List.append_right_eq_self.1 hf
    rw [← List.append_assoc] at hlast
    obtain rfl := eq_nil_of_solid hlast hrest
    rw [List.append_nil] at h hlast
    have hlast : ∀ c ∈ more.getLast?, Solid c := fun c hc => hlast c (mem_getLast?_append hc)
    refine ⟨⟨hlast, fun hv => ?_, fun hmore hv => ?_⟩, rfl⟩
    · rw [trim_eq_nil_iff.2 hv, List.nil_append] at h
      rw [h]
      exact solid_of_head?_trim _
    · obtain ⟨a, b, hab, -, htrim⟩ := exists_trim_append hv hlast hmore
      have hb : b = [] := by
        rw [htrim] at h
        simpa using h
      rw [hab, hb, List.append_nil]
      intro c hc
      rw [List.getLast?_append_of_ne_nil _ fun h => hv (trim_eq_nil_iff.1 h)] at hc
      exact solid_of_getLast?_trim value c hc
  · rintro ⟨h, rfl⟩
    rw [List.append_nil, h.trim_append]

end Text

namespace Manifest

open Text

variable {name value more rest cs : List Char}

structure Folded where
  head : List Char
  more : List Char

def Folded.line (f : Folded) : List Char := f.head ++ f.more

def fold : List (List Char) → List Char × List Folded
  | [] => ([], [])
  | (' ' :: more) :: rest => (more ++ (fold rest).1, (fold rest).2)
  | line :: rest => ([], ⟨line, (fold rest).1⟩ :: (fold rest).2)

def folded (cs : List Char) : List Folded := (fold ((lines cs).map dropReturn)).2

def attributesOf (fs : List Folded) : List (List Char × List Char) :=
  fs.filterMap fun f => attribute? f.line

def unfolded (cs : List Char) : List (List Char × List Char) :=
  attributesOf ((folded cs).takeWhile (!·.line.isEmpty))

-- What is added to the attribute before, and the attributes: whatever comes before the next line with
-- a colon of its own goes on with the value, after it has been trimmed.
def gather : List Folded → List Char × List (List Char × List Char)
  | [] => ([], [])
  | f :: rest =>
      match attribute? f.head with
      | some (name, value) => ([], (name, value ++ (f.more ++ (gather rest).1)) :: (gather rest).2)
      | none => (f.more ++ (gather rest).1, (gather rest).2)

theorem fold_takeWhile (ls : List (List Char)) : fold (ls.takeWhile (!·.isEmpty)) =
    ((fold ls).1, (fold ls).2.takeWhile (!·.head.isEmpty)) := by
  fun_induction fold ls with
  | case1 => rfl
  | case2 more rest ih =>
    rw [List.takeWhile_cons_of_pos rfl, fold, ih]
  | case3 line rest h ih =>
    cases line with
    | nil => rfl
    | cons c cs =>
      change fold ((c :: cs) :: rest.takeWhile (!·.isEmpty)) = _
      rw [fold.eq_3 _ _ h, ih]
      rfl

theorem extend_extend (more rest : List Char) (read : List (List Char × List Char)) :
    extend rest (extend more read) = extend (more ++ rest) read := by
  cases read with
  | nil => rfl
  | cons a read => simp [extend]

theorem extend_nil (read : List (List Char × List Char)) : extend [] read = read := by
  cases read with
  | nil => rfl
  | cons a read => simp [extend]

theorem collect_eq (read : List (List Char × List Char)) (ls : List (List Char)) :
    collect read ls = (gather (fold ls).2).2.reverse ++
      extend ((fold ls).1 ++ (gather (fold ls).2).1) read := by
  fun_induction collect read ls with
  | case1 read => exact (extend_nil read).symm
  | case2 read more rest ih =>
    rw [ih, extend_extend, fold, List.append_assoc]
  | case3 read line rest h a ha ih =>
    rw [ih, fold.eq_3 _ _ h, gather, ha, List.reverse_cons, List.append_assoc]
    dsimp only
    rw [List.append_nil, extend_nil]
    rfl
  | case4 read line rest h ha ih =>
    rw [ih, fold.eq_3 _ _ h, gather, ha, List.nil_append]

theorem splitFirst_cons (mark c : Char) (cs : List Char) : splitFirst mark (c :: cs) =
    if c = mark then some ([], cs)
    else (splitFirst mark cs).map fun (before, rest) => (c :: before, rest) := by
  by_cases h : c = mark
  · simp [splitFirst, h]
  · rw [splitFirst, splitFirst, List.dropWhile_cons_of_pos (by simpa using h),
      List.takeWhile_cons_of_pos (by simpa using h), if_neg h]
    split <;> rfl

theorem splitFirst_eq_none_iff {mark : Char} : splitFirst mark cs = none ↔ mark ∉ cs := by
  induction cs with
  | nil => simp [splitFirst]
  | cons c cs ih =>
    rw [splitFirst_cons, List.mem_cons, not_or]
    split
    case isTrue h => simp [h]
    case isFalse h => simp [ih, Ne.symm h]

theorem splitFirst_append {mark : Char} (h : splitFirst mark cs = some (name, value)) :
    splitFirst mark (cs ++ more) = some (name, value ++ more) := by
  induction cs generalizing name with
  | nil => simp [splitFirst] at h
  | cons c cs ih =>
    rw [splitFirst_cons] at h
    rw [List.cons_append, splitFirst_cons]
    split at h
    · cases h
      rw [if_pos ‹_›]
    · obtain ⟨⟨before, _⟩, hcs, ⟨⟩⟩ := Option.map_eq_some_iff.1 h
      rw [if_neg ‹_›, ih hcs]
      rfl

theorem attribute?_eq_none_iff : attribute? cs = none ↔ ':' ∉ cs := by
  rw [attribute?, Option.map_eq_none_iff, splitFirst_eq_none_iff]

theorem attribute?_append (h : splitFirst ':' cs = some (name, value)) :
    attribute? (cs ++ more) = some (trim name, trim (value ++ more)) := by
  rw [attribute?, splitFirst_append h]
  rfl

-- Where the text is read as if each line had been made whole first; `after` says whether an attribute
-- comes before.
inductive Intact : Bool → List Folded → Prop
  | done (after : Bool) : Intact after []
  | value {after : Bool} {f : Folded} {fs : List Folded} {name value : List Char}
      (h : splitFirst ':' f.head = some (name, value)) (hf : Seamless value f.more)
      (hfs : Intact true fs) : Intact after (f :: fs)
  | malformed {after : Bool} {f : Folded} {fs : List Folded} (hhead : f.head ≠ [])
      (h : ':' ∉ f.line) (hf : after = true → f.more = []) (hfs : Intact after fs) :
      Intact after (f :: fs)
  | past {after : Bool} {f : Folded} {fs : List Folded} (hhead : f.head = [])
      (h : ∀ g ∈ f :: fs, ':' ∉ g.line) : Intact after (f :: fs)

theorem Folded.head_ne_nil {f : Folded} (h : splitFirst ':' f.head = some (name, value)) :
    f.head ≠ [] := by
  intro hnil
  rw [hnil] at h
  cases h

theorem gather_takeWhile_cons {f : Folded} (fs : List Folded) (h : f.head ≠ []) :
    gather ((f :: fs).takeWhile (!·.head.isEmpty)) =
      gather (f :: fs.takeWhile (!·.head.isEmpty)) := by
  rw [List.takeWhile_cons_of_pos]
  simpa using h

theorem gather_takeWhile_past {f : Folded} (fs : List Folded) (h : f.head = []) :
    gather ((f :: fs).takeWhile (!·.head.isEmpty)) = ([], []) := by
  rw [List.takeWhile_cons_of_neg]
  · rfl
  · simpa using h

theorem gather_attribute {f : Folded} (fs : List Folded)
    (h : splitFirst ':' f.head = some (name, value)) :
    gather (f :: fs) = ([], (trim name, trim value ++ (f.more ++ (gather fs).1)) :: (gather fs).2) := by
  have hf : attribute? f.head = some (trim name, trim value) := by
    rw [attribute?, h]
    rfl
  rw [gather, hf]

theorem gather_malformed {f : Folded} (fs : List Folded) (h : splitFirst ':' f.head = none) :
    gather (f :: fs) = (f.more ++ (gather fs).1, (gather fs).2) := by
  have hf : attribute? f.head = none := by
    rw [attribute?, h]
    rfl
  rw [gather, hf]

theorem attributesOf_cons {f : Folded} (fs : List Folded)
    (h : splitFirst ':' f.head = some (name, value)) :
    attributesOf (f :: fs) = (trim name, trim (value ++ f.more)) :: attributesOf fs :=
  List.filterMap_cons_some (attribute?_append h)

theorem attributesOf_eq_nil_iff {fs : List Folded} :
    attributesOf fs = [] ↔ ∀ f ∈ fs, ':' ∉ f.line := by
  rw [attributesOf, List.filterMap_eq_nil_iff]
  exact forall₂_congr fun f _ => attribute?_eq_none_iff

theorem length_gather_le (fs : List Folded) :
    (gather (fs.takeWhile (!·.head.isEmpty))).2.length ≤ (attributesOf fs).length := by
  induction fs with
  | nil => exact Nat.le_refl 0
  | cons f fs ih =>
    by_cases hhead : f.head = []
    · rw [gather_takeWhile_past fs hhead]
      exact Nat.zero_le _
    rw [gather_takeWhile_cons fs hhead]
    cases hf : splitFirst ':' f.head with
    | none =>
      rw [gather_malformed _ hf]
      refine ih.trans ?_
      rw [attributesOf, attributesOf, ← List.singleton_append, List.filterMap_append,
        List.length_append]
      exact Nat.le_add_left _ _
    | some a =>
      rw [gather_attribute _ hf, attributesOf_cons fs hf]
      exact Nat.succ_le_succ ih

section Intact

variable {after : Bool} {f : Folded} {fs : List Folded}

theorem intact_value_iff (hf : splitFirst ':' f.head = some (name, value)) :
    Intact after (f :: fs) ↔ Seamless value f.more ∧ Intact true fs := by
  constructor
  · intro h
    cases h with
    | value h hseam hfs =>
      cases hf.symm.trans h
      exact ⟨hseam, hfs⟩
    | malformed _ h =>
      have hline : splitFirst ':' f.line = some (name, value ++ f.more) := splitFirst_append hf
      rw [splitFirst_eq_none_iff.2 h] at hline
      cases hline
    | past h => exact absurd h (Folded.head_ne_nil hf)
  · rintro ⟨hseam, hfs⟩
    exact .value hf hseam hfs

theorem intact_malformed_iff (hhead : f.head ≠ []) (hf : splitFirst ':' f.head = none) :
    Intact after (f :: fs) ↔
      ':' ∉ f.line ∧ (after = true → f.more = []) ∧ Intact after fs := by
  constructor
  · intro h
    cases h with
    | value h => cases hf.symm.trans h
    | malformed _ h hmore hfs => exact ⟨h, hmore, hfs⟩
    | past h => exact absurd h hhead
  · rintro ⟨h, hmore, hfs⟩
    exact .malformed hhead h hmore hfs

theorem intact_past_iff (hhead : f.head = []) :
    Intact after (f :: fs) ↔ ∀ g ∈ f :: fs, ':' ∉ g.line := by
  constructor
  · intro h
    cases h with
    | value h => exact absurd hhead (Folded.head_ne_nil h)
    | malformed h => exact absurd hhead h
    | past _ h => exact h
  · exact .past hhead

end Intact

theorem gather_eq_iff (after : Bool) (fs : List Folded) :
    (gather (fs.takeWhile (!·.head.isEmpty))).2 = attributesOf fs ∧
      (after = true → (gather (fs.takeWhile (!·.head.isEmpty))).1 = []) ↔ Intact after fs := by
  induction fs generalizing after with
  | nil => exact ⟨fun _ => .done after, fun _ => ⟨rfl, fun _ => rfl⟩⟩
  | cons f fs ih =>
    by_cases hhead : f.head = []
    · rw [gather_takeWhile_past fs hhead, intact_past_iff hhead, ← attributesOf_eq_nil_iff]
      exact ⟨fun h => h.1.symm, fun h => ⟨h.symm, fun _ => rfl⟩⟩
    rw [gather_takeWhile_cons fs hhead]
    cases hf : splitFirst ':' f.head with
    | some a =>
      rw [gather_attribute _ hf, attributesOf_cons fs hf, intact_value_iff hf, ← ih true]
      constructor
      · rintro ⟨h, -⟩
        obtain ⟨hvalue, hrest⟩ := List.cons.inj h
        obtain ⟨hseam, hnone⟩ := trim_append_iff.1 (Prod.mk.inj hvalue).2
        exact ⟨hseam, hrest, fun _ => hnone⟩
      · rintro ⟨hseam, hrest, hnone⟩
        rw [hnone rfl, List.append_nil, hseam.trim_append, hrest]
        exact ⟨rfl, fun _ => rfl⟩
    | none =>
      rw [gather_malformed _ hf, intact_malformed_iff hhead hf, ← ih after,
        ← attribute?_eq_none_iff]
      dsimp only
      rw [List.append_eq_nil_iff]
      cases hline : attribute? f.line with
      | none =>
        have hrest : attributesOf (f :: fs) = attributesOf fs := List.filterMap_cons_none hline
        rw [hrest]
        tauto
      | some a =>
        -- There would be an attribute more than are read.
        have hrest : attributesOf (f :: fs) = a :: attributesOf fs :=
          List.filterMap_cons_some hline
        refine ⟨fun h => ?_, fun h => nomatch h.1⟩
        have hle := length_gather_le fs
        rw [h.1, hrest] at hle
        exact absurd hle (Nat.not_succ_le_self _)

def strings (attributes : List (List Char × List Char)) : List (String × String) :=
  attributes.map fun (name, value) => (String.ofList name, String.ofList value)

theorem strings_inj {as bs : List (List Char × List Char)} : strings as = strings bs ↔ as = bs := by
  refine (List.map_injective_iff.2 fun (a, b) (c, d) h => ?_).eq_iff
  obtain ⟨hname, hvalue⟩ := Prod.mk.inj h
  rw [String.ofList_injective hname, String.ofList_injective hvalue]

theorem attributes_parse (text : String) : (parse text).attributes =
    strings (gather ((folded text.toList).takeWhile (!·.head.isEmpty))).2 := by
  change List.map _ _ = _
  rw [collect_eq, mainLines, fold_takeWhile]
  simp [extend, strings, folded]

theorem collect_append (read : List (List Char × List Char)) (above below : List (List Char)) :
    collect read (above ++ below) = collect (collect read above) below := by
  fun_induction collect read above with
  | case1 => rfl
  | case2 read more rest ih => exact ih
  | case3 read line rest h a ha ih =>
    rw [List.cons_append, collect.eq_3 _ _ _ h, ha]
    exact ih
  | case4 read line rest h ha ih =>
    rw [List.cons_append, collect.eq_3 _ _ _ h, ha]
    exact ih

theorem collect_cons_inj {read : List (List Char × List Char)} {ls : List (List Char)} :
    collect ((name, value) :: read) ls = collect ((name, more) :: read) ls ↔ value = more := by
  simp [collect_eq, extend]

theorem collect_fold_iff {line : List Char} (above below : List (List Char))
    (hline : ∀ cs, line ≠ ' ' :: cs) (h : splitFirst ':' line = some (name, value)) :
    collect [] (above ++ line :: (' ' :: more) :: below) =
      collect [] (above ++ (line ++ more) :: below) ↔ Seamless value more := by
  have hwhole : ∀ cs, line ++ more ≠ ' ' :: cs := by
    intro cs hcs
    cases line with
    | nil => cases h
    | cons c line => exact hline line (by rw [(List.cons.inj hcs).1])
  rw [collect_append, collect_append, collect.eq_3 _ _ _ hline, collect.eq_3 _ _ _ hwhole,
    attribute?_append h, attribute?, h]
  change collect ((trim name, trim value ++ more) :: _) below = _ ↔ _
  rw [collect_cons_inj]
  have hjoin : trim value ++ (more ++ []) = trim (value ++ more) ↔ Seamless value more ∧ [] = [] :=
    trim_append_iff
  simpa using hjoin

theorem attributes_eq_unfolded_iff (text : String) :
    (parse text).attributes = strings (unfolded text.toList) ↔
      Intact false ((folded text.toList).takeWhile (!·.line.isEmpty)) := by
  have hhead : ((folded text.toList).takeWhile (!·.line.isEmpty)).takeWhile (!·.head.isEmpty) =
      (folded text.toList).takeWhile (!·.head.isEmpty) := by
    rw [List.takeWhile_takeWhile]
    congr 1
    funext f
    rw [Folded.line]
    cases f.head <;> simp
  rw [attributes_parse, strings_inj, unfolded, ← gather_eq_iff, hhead]
  simp

theorem parse_eq_iff {text other : String} : parse text = parse other ↔
    collect [] (mainLines text.toList) = collect [] (mainLines other.toList) := by
  have hparse (text : String) :
      parse text = ⟨strings (collect [] (mainLines text.toList)).reverse⟩ := rfl
  rw [hparse, hparse, Manifest.mk.injEq, strings_inj, List.reverse_inj]

-- Every line up to the first empty one is read when it comes. So the text is read as if each line had
-- been made whole first exactly where no fold loses white space, adds to the line of another
-- attribute, or is what gives a line its colon.
theorem folds_of_manifests (text : String) :
    (parse text).attributes =
      strings (gather ((folded text.toList).takeWhile (!·.head.isEmpty))).2 ∧
    ((parse text).attributes = strings (unfolded text.toList) ↔
      Intact false ((folded text.toList).takeWhile (!·.line.isEmpty))) ∧
    ∀ (other : String) (above below : List (List Char)) (line name value more : List Char),
      mainLines text.toList = above ++ line :: (' ' :: more) :: below →
        mainLines other.toList = above ++ (line ++ more) :: below →
          line.head? ≠ some ' ' → splitFirst ':' line = some (name, value) →
            (parse text = parse other ↔ Seamless value more) := by
  refine ⟨attributes_parse text, attributes_eq_unfolded_iff text, ?_⟩
  intro other above below line name value more htext hother hline h
  rw [parse_eq_iff, htext, hother]
  exact collect_fold_iff above below (fun cs hcs => hline (by rw [hcs]; rfl)) h

theorem folds_of_manifests_at_spaces :
    parse "Main-Class: a \n b" ≠ parse "Main-Class: a b" ∧
      parse "Main-Class: a\n b" = parse "Main-Class: ab" := by
  obtain ⟨-, -, spaced⟩ := folds_of_manifests "Main-Class: a \n b"
  obtain ⟨-, -, inside⟩ := folds_of_manifests "Main-Class: a\n b"
  have spaced := spaced "Main-Class: a b" [] [] "Main-Class: a ".toList "Main-Class".toList
    " a ".toList "b".toList (by decide) (by decide) (by decide) (by decide)
  have inside := inside "Main-Class: ab" [] [] "Main-Class: a".toList "Main-Class".toList
    " a".toList "b".toList (by decide) (by decide) (by decide) (by decide)
  have hsolid : Solid 'a' ∧ Solid 'b' := by decide
  constructor
  · intro h
    have hspace : Solid ' ' :=
      (spaced.1 h).seam (by decide) (fun hv => (hsolid.1.ne (hv 'a' (by decide))) rfl) ' ' (by decide)
    exact absurd hspace (by decide)
  · refine inside.2 ⟨?_, ?_, ?_⟩
    · rintro c ⟨⟩
      exact hsolid.2
    · rintro - c ⟨⟩
      exact hsolid.2
    · rintro - - c ⟨⟩
      exact hsolid.1

end Manifest

end BytecodeMachine
