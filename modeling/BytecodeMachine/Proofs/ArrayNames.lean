import BytecodeMachine.Proofs.Descriptors
import BytecodeMachine.Proofs.Loading.Records

namespace BytecodeMachine

theorem BaseType.exists_of_isBaseCode {c : Char} (h : isBaseCode c = true) :
    ∃ b, ofCode? c = some b := by
  simp only [isBaseCode, Bool.or_eq_true, decide_eq_true_eq] at h
  rcases h with ((((((rfl | rfl) | rfl) | rfl) | rfl) | rfl) | rfl) | rfl <;> exact ⟨_, rfl⟩

namespace ClassName

theorem semicolon_of_readBody {cs rest : List Char} {n : ClassName}
    (h : readBody cs = .ok (n, rest)) : ';' ∉ n.text.toList := by
  simp only [readBody] at h
  split at h
  · cases h
  · split at h
    · rename_i hn
      cases h
      intro hm
      rw [text_of_ofString hn, String.toList_ofList] at hm
      have hne := List.all_eq_true.1 List.all_takeWhile _ hm
      simp at hne
    · cases h

inductive Element : List Char → Prop
  | base (c : Char) (h : isBaseCode c = true) : Element [c]
  | object (body : List Char) (h : check body = .ok ()) : Element ('L' :: body ++ [';'])

theorem element_of_check {tail : List Char} (h : check ('[' :: tail) = .ok ()) :
    Element (element tail) := by
  rw [check] at h
  split at h
  · rename_i c hc
    split at h
    · rename_i hb
      rw [hc]
      exact .base c hb
    · cases h
  · rename_i rest _ hr
    split at h
    · rename_i hl
      have hrest := List.dropLast_append_getLast? ';' hl
      rw [hr, ← hrest]
      exact .object _ h
    · cases h
  · cases h

end ClassName

namespace FieldType

theorem semicolons_of_read {cs rest : List Char} {t : FieldType} (h : read cs = .ok (t, rest)) :
    t.render.count ';' ≤ 1 := by
  induction cs generalizing t rest with
  | nil => cases h
  | cons c cs ih =>
      simp only [read] at h
      split at h
      · split at h
        · rename_i hr
          cases h
          simpa [render] using ih hr
        · cases h
      · split at h
        · split at h
          · rename_i hr
            cases h
            have hn := List.count_eq_zero.2 (ClassName.semicolon_of_readBody hr)
            simp [render, ClassName.render, hn]
          · cases h
        · split at h
          · rename_i b _
            cases h
            cases b <;> simp [render, BaseType.render, BaseType.code]
          · cases h

theorem exists_read_of_element {cs : List Char} {t : FieldType}
    (h : read (ClassName.element cs) = .ok (t, [])) : ∃ u, read cs = .ok (u, []) := by
  induction cs with
  | nil => exact ⟨t, h⟩
  | cons c cs ih =>
      by_cases hc : c = '['
      · subst hc
        obtain ⟨u, hu⟩ := ih h
        exact ⟨.array u, by simp [read, hu]⟩
      · simp only [ClassName.element, List.dropWhile_cons, hc] at h
        exact ⟨t, h⟩

theorem exists_read_of_check {tail : List Char} (h : ClassName.check ('[' :: tail) = .ok ())
    (hs : ('[' :: tail).count ';' ≤ 1) : ∃ u, read ('[' :: tail) = .ok (.array u, []) := by
  have hcount : (ClassName.element tail).count ';' ≤ 1 := by
    have hsub : (ClassName.element tail).Sublist ('[' :: tail) :=
      (List.dropWhile_sublist _).cons '['
    exact Nat.le_trans (hsub.count_le ';') hs
  have hread : ∃ t, read (ClassName.element tail) = .ok (t, []) := by
    have he := ClassName.element_of_check h
    generalize ClassName.element tail = inner at he hcount
    cases he with
    | base c hc =>
        obtain ⟨b, hb⟩ := BaseType.exists_of_isBaseCode hc
        rw [← BaseType.code_of_ofCode? hb]
        exact ⟨.base b, by cases b <;> rfl⟩
    | object body hbody =>
        have hbare : ';' ∉ body := by
          rw [← List.count_eq_zero]
          simp at hcount
          omega
        have hv : (ClassName.mk (String.ofList body)).Valid := by
          simp [ClassName.Valid, hbody, Except.isOk, Except.toBool]
        have hr := ClassName.readBody_of_valid hv (by simpa using hbare) []
        rw [String.toList_ofList] at hr
        exact ⟨.object ⟨String.ofList body⟩, by simp [read, hr]⟩
  obtain ⟨t, ht⟩ := hread
  obtain ⟨u, hu⟩ := exists_read_of_element ht
  exact ⟨u, by simp [read, hu]⟩

theorem parse_eq_ok {s : String} {t : FieldType} : parse s = .ok t ↔ read s.toList = .ok (t, []) := by
  constructor
  · exact Reader.of_all
  · intro h
    simp [parse, Reader.all, h]

theorem text_of_parse {s : String} {t : FieldType} (h : parse s = .ok t) : t.text = s :=
  inverts.canonical.render_parse s t h

section Parsed

variable {s : String} {t : FieldType} (h : parse s = .ok (.array t))

include h

theorem ofString_of_parse : ClassName.ofString s = .ok ⟨s⟩ := by
  have ha : (FieldType.array t).Named := named_of_read (Reader.of_all h)
  have ht : t.Named := ha
  rw [← text_of_parse h]
  exact ofString_array ht

theorem className?_of_parse : (FieldType.array t).className? = some ⟨s⟩ := by
  rw [className?, text_of_parse h, ofString_of_parse h]
  rfl

theorem ofClassName_of_parse : ofClassName ⟨s⟩ = .ok (.array t) := by
  rw [ofClassName, if_pos (ClassTable.isArray_of_parse h)]
  exact h

end Parsed

theorem exists_array_of_parse {s : String} {t : FieldType} (hs : s.toList.head? = some '[')
    (h : parse s = .ok t) : ∃ u, t = .array u := by
  have hr := eq_of_read (Reader.of_all h)
  rw [List.append_nil] at hr
  rw [hr] at hs
  cases t with
  | base b => cases b <;> cases hs
  | object n => cases hs
  | array u => exact ⟨u, rfl⟩

theorem ofClassName_object (n : ClassName) :
    ofClassName n = .ok (.object n) ↔ n.isArray = false := by
  constructor
  · intro h
    by_contra ha
    have ha : n.isArray = true := by simpa using ha
    rw [ofClassName, if_pos ha] at h
    have ht := text_of_parse h
    rw [ClassName.isArray, ← ht, text, String.toList_ofList] at ha
    simp [render, ClassName.render] at ha
  · intro ha
    simp [ofClassName, ha]

theorem exists_parse_iff {s : String} (hs : s.toList.head? = some '[') :
    (∃ t, parse s = .ok t) ↔ (∃ n, ClassName.ofString s = .ok n) ∧ s.toList.count ';' ≤ 1 := by
  constructor
  · rintro ⟨t, ht⟩
    obtain ⟨u, rfl⟩ := exists_array_of_parse hs ht
    have hcount := semicolons_of_read (Reader.of_all ht)
    have htext := congrArg String.toList (text_of_parse ht)
    rw [text, String.toList_ofList] at htext
    rw [htext] at hcount
    exact ⟨⟨_, ofString_of_parse ht⟩, hcount⟩
  · rintro ⟨⟨n, hn⟩, hcount⟩
    have hcheck := ClassName.check_of_valid (ClassName.valid_of_ofString hn)
    rw [ClassName.text_of_ofString hn] at hcheck
    obtain ⟨tail, htail⟩ := List.head?_eq_some_iff.1 hs
    rw [htail] at hcheck hcount
    obtain ⟨u, hu⟩ := exists_read_of_check hcheck hcount
    exact ⟨.array u, parse_eq_ok.2 (htail ▸ hu)⟩

theorem correspond_with_names (s : String) :
    (s.toList.head? = some '[' →
      ((∃ t, parse s = .ok t) ↔
        (∃ n, ClassName.ofString s = .ok n) ∧ s.toList.count ';' ≤ 1) ∧
      ((∃ t, parse s = .ok t) →
        ∃ n u, ClassName.ofString s = .ok n ∧ ofClassName n = .ok (.array u) ∧
          (FieldType.array u).text = s ∧ n.text = s ∧ (FieldType.array u).className? = some n)) ∧
    ∀ t : FieldType, parse s = .ok t → t.isReference = true →
      ∃ n, t.className? = some n ∧
        (ofClassName n = .ok t ↔ ∀ m, t = .object m → m.isArray = false) := by
  constructor
  · intro hs
    refine ⟨exists_parse_iff hs, ?_⟩
    rintro ⟨t, ht⟩
    obtain ⟨u, rfl⟩ := exists_array_of_parse hs ht
    exact ⟨⟨s⟩, u, ofString_of_parse ht, ofClassName_of_parse ht, text_of_parse ht, rfl,
      className?_of_parse ht⟩
  · intro t ht hr
    cases t with
    | base b => cases hr
    | object n =>
        refine ⟨n, rfl, ?_⟩
        rw [ofClassName_object]
        simp
    | array u =>
        refine ⟨⟨s⟩, className?_of_parse ht, ?_⟩
        simp [ofClassName_of_parse ht]

theorem correspond_with_names_of_nested :
    (∃ n, ClassName.ofString "[L[Lt/A;;" = .ok n) ∧ (¬ ∃ t, parse "[L[Lt/A;;" = .ok t) ∧
    ∃ n t, ClassName.ofString "[[Lt/A;" = .ok n ∧ ofClassName n = .ok (.array t) := by
  have outer : ClassName.ofString "[L[Lt/A;;" = .ok ⟨"[L[Lt/A;;"⟩ := by decide +kernel
  have inner : ClassName.ofString "[[Lt/A;" = .ok ⟨"[[Lt/A;"⟩ := by decide +kernel
  refine ⟨⟨_, outer⟩, ?_, ?_⟩
  · obtain ⟨hiff, -⟩ := (correspond_with_names "[L[Lt/A;;").1 (by decide)
    rw [hiff]
    exact fun hc => absurd hc.2 (by decide)
  · obtain ⟨hiff, hback⟩ := (correspond_with_names "[[Lt/A;").1 (by decide)
    obtain ⟨n, u, hn, hu, -⟩ := hback (hiff.2 ⟨⟨_, inner⟩, by decide⟩)
    exact ⟨n, u, hn, hu⟩

end FieldType

end BytecodeMachine
