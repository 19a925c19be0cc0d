import BytecodeMachine.Proofs.Loading.Assignability

namespace BytecodeMachine

open Relation

namespace Class

variable {c k s : Class} {n : MemberName} {t : FieldType} {f g : Field}

theorem fieldOrder_eq (c : Class) :
    c.fieldOrder =
      c :: (c.interfaces.flatMap fieldOrder ++ c.superclass.toList.flatMap fieldOrder) := by
  have list (cs : List Class) : fieldOrder.ofList cs = cs.flatMap fieldOrder := by
    induction cs with
    | nil => rfl
    | cons d ds ih => rw [fieldOrder.ofList, ih, List.flatMap_cons]
  obtain ⟨_, s, _, _, _, _, _, _, _, _⟩ := c
  cases s <;> simp [fieldOrder, fieldOrder.ofOption, list]

theorem fieldOrder_subset_of_under (h : ReflTransGen Under c k) : k.fieldOrder ⊆ c.fieldOrder := by
  induction h with
  | refl => exact List.Subset.refl _
  | tail _ hs ih => exact List.Subset.trans (fieldOrder_subset hs) ih

theorem mem_fieldOrder_iff : k ∈ c.fieldOrder ↔ ReflTransGen Under c k := by
  constructor
  · exact forall_fieldOrder (P := ReflTransGen Under c) (fun _ hd _ hs => hd.tail hs) c .refl k
  · intro h
    exact fieldOrder_subset_of_under h k.mem_fieldOrder_self

def searched (c : Class) : List Field := c.fieldOrder.flatMap (·.fields)

theorem searched_eq (c : Class) :
    c.searched =
      c.fields ++ (c.interfaces.flatMap searched ++ c.superclass.toList.flatMap searched) := by
  rw [searched, fieldOrder_eq, List.flatMap_cons, List.flatMap_append, List.flatMap_assoc,
    List.flatMap_assoc]
  rfl

theorem mem_searched_iff : g ∈ c.searched ↔ ∃ k, ReflTransGen Under c k ∧ g ∈ k.fields := by
  simp only [searched, List.mem_flatMap, mem_fieldOrder_iff]

theorem lookupField?_eq_find? : c.lookupField? n = c.searched.find? fun f => f.name = n := by
  rw [lookupField?_eq, searched, List.find?_flatMap]
  rfl

def meant? (c : Class) (n : MemberName) (t : FieldType) : Option Field :=
  c.searched.find? fun f => f.name = n ∧ f.type = t

-- A field of the name that has another type comes before the one that has the type.
def Hides (c : Class) (n : MemberName) (t : FieldType) : Prop :=
  ∃ before f later, c.searched = before ++ f :: later ∧ (∀ g ∈ before, g.name ≠ n) ∧
    f.name = n ∧ f.type ≠ t ∧ ∃ g ∈ later, g.name = n ∧ g.type = t

theorem lookupField?_eq_some_iff : c.lookupField? n = some f ↔
    ∃ before later, c.searched = before ++ f :: later ∧ (∀ g ∈ before, g.name ≠ n) ∧ f.name = n := by
  rw [lookupField?_eq_find?, List.find?_eq_some_iff_append]
  simp
  grind

theorem meant?_eq_none_iff :
    c.meant? n t = none ↔ ∀ k, ReflTransGen Under c k → ∀ g ∈ k.fields, g.name = n → g.type ≠ t := by
  rw [meant?, List.find?_eq_none]
  simp only [mem_searched_iff]
  grind

theorem Hides.lookupField? (h : c.Hides n t) : ∃ f, c.lookupField? n = some f ∧ f.type ≠ t := by
  obtain ⟨before, f, later, hs, hb, hn, ht, -⟩ := h
  exact ⟨f, lookupField?_eq_some_iff.2 ⟨before, later, hs, hb, hn⟩, ht⟩

theorem Hides.meant? (h : c.Hides n t) : ∃ g, c.meant? n t = some g := by
  obtain ⟨before, f, later, hs, -, -, -, g, hg, hn, ht⟩ := h
  rw [← Option.isSome_iff_exists, Class.meant?, List.find?_isSome]
  exact ⟨g, by simp [hs, hg], by simp [hn, ht]⟩

theorem meant?_eq_filter (h : ¬ c.Hides n t) :
    c.meant? n t = (c.lookupField? n).filter fun f => f.type = t := by
  cases hf : c.lookupField? n with
  | none =>
    rw [lookupField?_eq_find?, List.find?_eq_none] at hf
    rw [Option.filter_none, meant?, List.find?_eq_none]
    intro g hg
    have hn := hf g hg
    simp_all
  | some f =>
    obtain ⟨before, later, hs, hb, hn⟩ := lookupField?_eq_some_iff.1 hf
    have hfirst : before.find? (fun g => g.name = n ∧ g.type = t) = none := by
      rw [List.find?_eq_none]
      intro g hg
      simp [hb g hg]
    rw [meant?, hs, List.find?_append, hfirst, Option.none_or, List.find?_cons]
    by_cases ht : f.type = t
    · simp [hn, ht, Option.filter_some]
    · simp only [ht, and_false, decide_false, Option.filter_some, Bool.false_eq_true, if_false]
      rw [List.find?_eq_none]
      intro g hg hmeant
      simp only [decide_eq_true_eq] at hmeant
      exact h ⟨before, f, later, hs, hb, hn, ht, g, hg, hmeant⟩

end Class

namespace Resolving

open ClassTable

variable {libraries : List Library} {table table' : ClassTable} {f : FieldRef} {g : Field}
  {context : Option Class} {c d : Class}

theorem closed_of_resolveClass {n : ClassName} (h : Closed libraries table)
    (hc : resolveClass libraries n context table = (.ok c, table')) :
    Closed libraries table' ∧ table'.get? n = some c := by
  have hfinds := finds_resolveClass n context libraries table
  simp only [Keeps, hc] at hfinds
  exact ⟨hfinds.1.closed h, hfinds.2 c rfl⟩

theorem resolveField_of_none (hc : resolveClass libraries f.klass context table = (.ok c, table'))
    (hf : (c.lookupField? f.name).filter (fun g => g.type = f.type) = none) :
    resolveField libraries f context table = (.error (.noSuchField f), table') := by
  rw [resolveField, bind_apply, hc]
  dsimp only
  cases hl : c.lookupField? f.name with
  | none => rfl
  | some g =>
    have ht : g.type ≠ f.type := by simpa [hl] using hf
    dsimp only
    rw [if_pos ht]
    rfl

theorem resolveField_of_hidden {k : Class}
    (hc : resolveClass libraries f.klass context table = (.ok c, table'))
    (hf : c.lookupField? f.name = some g) (ht : g.type = f.type)
    (hd : table'.get? g.owner = some d) (hk : context = some k)
    (hv : k.seesMember d g.access.visibility = false) :
    resolveField libraries f context table = (.error (.illegalAccess g.text k.name), table') := by
  rw [resolveField_of_lookup hc hf ht hd, hk, checkMember, if_neg (by simp [hv])]
  rfl

end Resolving

namespace ClassTable

open Resolving

variable {libraries : List Library} {table : ClassTable} {c : Class}

theorem fields_are_found_by_name (libraries : List Library) (names : List ClassName) (f : FieldRef)
    (context : Option Class)
    (hc : resolveClass libraries f.klass context (after libraries names) = (.ok c, table)) :
    c.searched =
      c.fields ++ (c.interfaces.flatMap Class.searched ++
        c.superclass.toList.flatMap Class.searched) ∧
    (¬ c.Hides f.name f.type →
      (∀ g, c.meant? f.name f.type = some g →
        ∃ d, table.get? g.owner = some d ∧ g ∈ d.fields ∧
          ((∀ k, context = some k → k.seesMember d g.access.visibility = true) →
            resolveField libraries f context (after libraries names) = (.ok (d, g), table)) ∧
          ∀ k, context = some k → k.seesMember d g.access.visibility = false →
            resolveField libraries f context (after libraries names) =
              (.error (.illegalAccess g.text k.name), table)) ∧
      ((resolveField libraries f context (after libraries names)).1 = .error (.noSuchField f) ↔
        ∀ k, ReflTransGen Class.Under c k → ∀ g ∈ k.fields, g.name = f.name → g.type ≠ f.type)) ∧
    (c.Hides f.name f.type → (∃ g, c.meant? f.name f.type = some g) ∧
      resolveField libraries f context (after libraries names) =
        (.error (.noSuchField f), table)) := by
  obtain ⟨h, hget⟩ := closed_of_resolveClass (settled_after libraries names).closed hc
  refine ⟨c.searched_eq, fun hplain => ?_, fun hhides => ?_⟩
  · have hmeant := Class.meant?_eq_filter hplain
    have found : ∀ g, c.meant? f.name f.type = some g →
        c.lookupField? f.name = some g ∧ g.type = f.type := by
      intro g hg
      simpa [Option.filter_eq_some_iff] using hmeant.symm.trans hg
    refine ⟨fun g hg => ?_, ?_⟩
    · obtain ⟨hl, ht⟩ := found g hg
      obtain ⟨d, hd, hmem⟩ := h.owner hget hl
      exact ⟨d, hd, hmem, resolveField_of_visible hc hl ht hd,
        fun k hk => resolveField_of_hidden hc hl ht hd hk⟩
    · rw [← Class.meant?_eq_none_iff]
      cases hg : c.meant? f.name f.type with
      | none => simp [resolveField_of_none hc (hmeant.symm.trans hg)]
      | some g =>
        obtain ⟨hl, ht⟩ := found g hg
        obtain ⟨d, hd, -⟩ := h.owner hget hl
        by_cases hv : ∀ k, context = some k → k.seesMember d g.access.visibility = true
        · simp [resolveField_of_visible hc hl ht hd hv]
        · push Not at hv
          obtain ⟨k, hk, hv⟩ := hv
          simp [resolveField_of_hidden hc hl ht hd hk (by simpa using hv)]
  · obtain ⟨g, hl, ht⟩ := hhides.lookupField?
    refine ⟨hhides.meant?, ?_⟩
    exact resolveField_of_none hc (by simp [hl, ht, Option.filter_some])

def twin : ClassData :=
  CoreLibrary.klass ⟨"t/A"⟩ .object .plain []
    [⟨⟨Flag.isPublic⟩, ⟨"x"⟩, .int, none⟩, ⟨⟨Flag.isPublic⟩, ⟨"x"⟩, .base .long, none⟩] []

def twins : List Library := [.ofClasses "twins" [CoreLibrary.object, twin] []]

theorem fields_are_found_by_name_of_twins :
    ∃ c g g', (after twins [⟨"t/A"⟩]).get? ⟨"t/A"⟩ = some c ∧ c.fields = [g, g'] ∧
      g'.name = ⟨"x"⟩ ∧ g'.type = .base .long ∧
      resolveField twins ⟨⟨"t/A"⟩, ⟨"x"⟩, .int⟩ none (after twins [⟨"t/A"⟩]) =
        (.ok (c, g), after twins [⟨"t/A"⟩]) ∧
      resolveField twins ⟨⟨"t/A"⟩, ⟨"x"⟩, .base .long⟩ none (after twins [⟨"t/A"⟩]) =
        (.error (.noSuchField ⟨⟨"t/A"⟩, ⟨"x"⟩, .base .long⟩), after twins [⟨"t/A"⟩]) := by
  obtain ⟨c, hc⟩ : ∃ c, (after twins [⟨"t/A"⟩]).get? ⟨"t/A"⟩ = some c :=
    exists_get?_after (show loads twins ⟨"t/A"⟩ 20 = true by decide +kernel) List.mem_cons_self
  have hclass : resolveClass twins ⟨"t/A"⟩ none (after twins [⟨"t/A"⟩]) =
      (.ok c, after twins [⟨"t/A"⟩]) :=
    resolveClass_of_load (load_of_get? hc) (by simp)
  obtain ⟨hs, hplain, -⟩ := fields_are_found_by_name twins [⟨"t/A"⟩] ⟨⟨"t/A"⟩, ⟨"x"⟩, .int⟩ none hclass
  obtain ⟨-, -, hhides⟩ :=
    fields_are_found_by_name twins [⟨"t/A"⟩] ⟨⟨"t/A"⟩, ⟨"x"⟩, .base .long⟩ none hclass
  have h := (settled_after twins [⟨"t/A"⟩]).closed
  obtain ⟨g, g', hfields, hn, ht, hn', ht'⟩ : ∃ g g', c.fields = [g, g'] ∧ g.name = ⟨"x"⟩ ∧
      g.type = .int ∧ g'.name = ⟨"x"⟩ ∧ g'.type = .base .long := by
    obtain ⟨_, _, rfl⟩ := h.regular hc (by decide) (by decide)
      (show classData? twins ⟨"t/A"⟩ = some twin from rfl)
    exact ⟨_, _, rfl, rfl, rfl, rfl, rfl⟩
  rw [hfields, List.cons_append, List.cons_append] at hs
  refine ⟨c, g, g', hc, hfields, hn', ht', ?_, (hhides ?_).2⟩
  · have hmeant : c.meant? ⟨"x"⟩ .int = some g := by simp [Class.meant?, hs, hn, ht]
    have hno : ¬ c.Hides ⟨"x"⟩ .int := by
      intro hh
      obtain ⟨f, hf, hne⟩ := hh.lookupField?
      rw [Class.lookupField?_eq_find?, hs] at hf
      simp only [hn, decide_true, List.find?_cons_of_pos, Option.some.injEq] at hf
      exact hne (hf ▸ ht)
    obtain ⟨d, hd, -, hsees, -⟩ := (hplain hno).1 g hmeant
    rw [(h.placed hc).owner g (by simp [hfields]), hc] at hd
    cases hd
    exact hsees (by simp)
  · exact ⟨[], g, g' :: _, hs, by simp, hn, by simp [ht, FieldType.int], g', List.mem_cons_self, hn', ht'⟩

end ClassTable

end BytecodeMachine
