import BytecodeMachine.Proofs.Loading

namespace BytecodeMachine

theorem BaseType.code_injective {b c : BaseType} (h : b.code = c.code) : b = c := by
  have := ofCode?_code c
  rw [← h, ofCode?_code] at this
  exact Option.some.inj this

theorem ClassName.valid_of_ofString {s : String} {n : ClassName} (h : ofString s = .ok n) :
    n.Valid := by
  have ht := text_of_ofString h
  unfold Valid
  rw [ht]
  simp only [ofString, Except.map] at h
  split at h
  · cases h
  · rename_i hc
    rw [hc]
    rfl

theorem ClassName.valid_of_readBody {cs rest : List Char} {n : ClassName}
    (h : readBody cs = .ok (n, rest)) : n.Valid := by
  simp only [readBody] at h
  split at h
  · cases h
  · split at h
    · rename_i hn
      cases h
      exact valid_of_ofString hn
    · cases h

namespace FieldType

theorem render_injective {t u : FieldType} (h : t.render = u.render) : t = u := by
  induction t generalizing u with
  | base b =>
    cases u with
    | base c => rw [BaseType.code_injective (List.cons.inj h).1]
    | object n => simp [render, BaseType.render, ClassName.render] at h
    | array u => exact absurd (List.cons.inj h).2.symm u.render_ne_nil
  | object n =>
    cases u with
    | base c => simp [render, BaseType.render, ClassName.render] at h
    | object m =>
      have := List.append_cancel_right (List.cons.inj h).2
      rw [show n = m from congrArg ClassName.mk (String.toList_inj.1 this)]
    | array u => cases (List.cons.inj h).1
  | array t ih =>
    cases u with
    | base c => exact absurd (List.cons.inj h).2 t.render_ne_nil
    | object n => cases (List.cons.inj h).1
    | array u => rw [ih (List.cons.inj h).2]

def innermost : FieldType → FieldType
  | .array t => t.innermost
  | t => t

theorem element_render (t : FieldType) : ClassName.element t.render = t.innermost.render := by
  induction t with
  | base b => cases b <;> rfl
  | object n => rfl
  | array t ih => exact ih

def Named (t : FieldType) : Prop := ∀ n, t.innermost = .object n → n.Valid

theorem named_of_read {cs rest : List Char} {t : FieldType} (h : read cs = .ok (t, rest)) :
    t.Named := by
  induction cs generalizing t rest with
  | nil => cases h
  | cons c cs ih =>
    simp only [read] at h
    repeat' split at h
    all_goals cases h
    · rename_i hr
      exact fun n hn => ih hr n hn
    · rename_i hr
      intro n hn
      cases hn
      exact ClassName.valid_of_readBody hr
    · exact fun n hn => nomatch hn

theorem ofString_array {t : FieldType} (h : t.Named) :
    ClassName.ofString (FieldType.array t).text = .ok ⟨(FieldType.array t).text⟩ := by
  have hc : (ClassName.check ('[' :: t.render)).isOk = true := by
    have he := t.element_render
    rw [ClassName.check]
    cases hi : t.innermost with
    | base b =>
      rw [hi] at he
      split
      · rename_i c hc
        cases he.symm.trans hc
        cases b <;> rfl
      · rename_i hc
        have := he.symm.trans hc
        cases b <;> cases this
      · rename_i hc _
        exact (hc _ he).elim
    | object n =>
      rw [hi] at he
      split
      · rename_i hc
        simpa [render, ClassName.render] using he.symm.trans hc
      · rename_i rest _ hc
        have hr : rest = n.text.toList ++ [';'] := (List.cons.inj (hc.symm.trans he)).2
        rw [hr, if_pos (by simp), List.dropLast_concat]
        exact h n hi
      · rename_i hc
        exact (hc _ he).elim
    | array u =>
      have hnot : ∀ t : FieldType, t.innermost ≠ .array u := by
        intro t
        induction t with
        | base b => exact FieldType.noConfusion
        | object n => exact FieldType.noConfusion
        | array t ih => exact ih
      exact absurd hi (hnot t)
  simp only [ClassName.ofString, text, String.toList_ofList, render] at hc ⊢
  cases hr : ClassName.check ('[' :: t.render) with
  | ok u => rfl
  | error e =>
    rw [hr] at hc
    cases hc

theorem exists_className {t : FieldType} (h : t.Named) (hr : t.isReference = true) :
    ∃ n, t.className? = some n := by
  cases t with
  | base b => cases hr
  | object n => exact ⟨n, rfl⟩
  | array t =>
    have ht : t.Named := h
    exact ⟨⟨(FieldType.array t).text⟩, by simp [className?, ofString_array ht, Except.toOption]⟩

end FieldType

namespace Class

theorem isAssignable_self (c : Class) : c.isAssignable c = true := by
  match c with
  | ⟨n, s, i, k, a, src, .array t, f, m, l⟩ =>
      cases k with
      | none => simp [isAssignable, isAssignable.byComponent]
      | some d => simpa [isAssignable, isAssignable.byComponent] using isAssignable_self d
  | ⟨n, s, i, k, a, src, .regular, f, m, l⟩ => simp [isAssignable, reaches]
  | ⟨n, s, i, k, a, src, .primitive b, f, m, l⟩ => simp [isAssignable, reaches]

end Class

namespace ClassTable

variable {libraries : List Library} {table : ClassTable} {n : ClassName} {c : Class} {t : FieldType}

theorem Closed.component (h : Closed libraries table) (hc : table.get? n = some c)
    (ht : c.componentType? = some t) :
    (t.isReference = false ∧ c.component = none) ∨
      ∃ m k, t.className? = some m ∧ c.component = some k ∧ table.get? m = some k := by
  obtain ⟨d, cs, hd, rfl, hl⟩ := h n c hc
  cases defines hd with
  | @arrayOf _ m _ _ hm =>
    cases ht
    cases hl with
    | @cons l k _ ks hk _ => exact .inr ⟨m, k, hm, rfl, hk.1⟩
  | baseArray _ hu hm =>
    cases ht
    refine .inl ⟨?_, rfl⟩
    by_contra hr
    have ha : (FieldType.array t).Named := FieldType.named_of_read (Reader.of_all hu)
    have hn : t.Named := ha
    obtain ⟨m, hm'⟩ := FieldType.exists_className hn (by simpa using hr)
    cases hm.symm.trans hm'
  | primitive => cases ht
  | regular _ _ hk =>
    obtain ⟨superclass, interfaces, hb⟩ := hk.build cs
    rw [hb] at ht
    cases ht

theorem Closed.componentType (h : Closed libraries table)
    (hn : (FieldType.array t).className? = some n) (hc : table.get? n = some c) :
    c.componentType? = some t := by
  have htext : n.text = (FieldType.array t).text := by
    simp only [FieldType.className?, Except.toOption] at hn
    split at hn
    · rename_i hs
      cases hn
      exact ClassName.text_of_ofString hs
    · cases hn
  have hlist : n.text.toList = (FieldType.array t).render := by
    rw [htext, FieldType.text, String.toList_ofList]
  have harray : n.isArray = true := by
    simp [ClassName.isArray, hlist, FieldType.render]
  obtain ⟨d, cs, hd, rfl, -⟩ := h n c hc
  have same {u : FieldType} (hu : FieldType.parse n.text = .ok (.array u)) : u = t := by
    have hr := FieldType.eq_of_read (Reader.of_all hu)
    rw [hlist, List.append_nil] at hr
    exact (FieldType.array.inj (FieldType.render_injective hr)).symm
  cases defines hd with
  | arrayOf _ hu => exact congrArg some (same hu)
  | baseArray _ hu => exact congrArg some (same hu)
  | primitive ha => cases harray.symm.trans ha
  | regular ha => cases harray.symm.trans ha

end ClassTable

end BytecodeMachine
