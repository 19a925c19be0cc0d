import BytecodeMachine.Bridge.Native
import BytecodeMachine.Proofs.Typing.ArrayClasses

namespace BytecodeMachine

theorem mem_segments {c : Char} {cs : List Char} (hc : c ∈ cs) (hs : c ≠ '/') :
    ∃ s ∈ segments cs, c ∈ s := by
  induction cs with
  | nil => cases hc
  | cons d cs ih =>
      simp only [segments]
      split
      · rename_i hd
        have hc : c ∈ cs := (List.mem_cons.1 hc).resolve_left fun h => hs (h.trans hd)
        obtain ⟨s, hm, hcs⟩ := ih hc
        exact ⟨s, List.mem_cons_of_mem _ hm, hcs⟩
      · cases hg : segments cs with
        | nil =>
            rw [hg] at ih
            rcases List.mem_cons.1 hc with rfl | hc
            · exact ⟨[c], by simp, by simp⟩
            · obtain ⟨s, hm, -⟩ := ih hc
              cases hm
        | cons t rest =>
            rw [hg] at ih
            rcases List.mem_cons.1 hc with rfl | hc
            · exact ⟨c :: t, by simp, by simp⟩
            · obtain ⟨s, hm, hcs⟩ := ih hc
              rcases List.mem_cons.1 hm with rfl | hm
              · exact ⟨d :: s, by simp, by simp [hcs]⟩
              · exact ⟨s, List.mem_cons_of_mem _ hm, hcs⟩

theorem MemberName.isReserved_of_check {cs : List Char} (h : check cs = .ok ()) :
    ∀ c ∈ cs, isReserved c = false := by
  intro c hc
  unfold check at h
  split at h
  · cases h
  · rename_i hr
    simp only [List.any_eq_true, not_exists, not_and, Bool.not_eq_true] at hr
    exact hr c hc

namespace ClassName

theorem isReserved_of_checkSegments {parts : List (List Char)} (h : checkSegments parts = .ok ()) :
    ∀ s ∈ parts, ∀ c ∈ s, MemberName.isReserved c = false := by
  induction parts with
  | nil => intro s hs; cases hs
  | cons t rest ih =>
      intro s hs
      simp only [checkSegments] at h
      split at h
      · cases h
      · rename_i ht
        rcases List.mem_cons.1 hs with rfl | hs
        · exact MemberName.isReserved_of_check ht
        · exact ih h s hs

theorem check_of_valid {n : ClassName} (h : n.Valid) : check n.text.toList = .ok () := by
  unfold Valid at h
  cases hc : check n.text.toList with
  | ok u => rfl
  | error e =>
      rw [hc] at h
      cases h

theorem ofString_of_valid {n : ClassName} (h : n.Valid) : ofString n.text = .ok n := by
  rw [ofString, check_of_valid h]
  rfl

theorem isReserved_of_check {cs : List Char} (h : check cs = .ok ()) (ha : cs.head? ≠ some '[') :
    ∀ c ∈ cs, c ≠ '/' → MemberName.isReserved c = false := by
  intro c hc hs
  rw [check.eq_def] at h
  split at h
  · cases h
  · simp at ha
  · obtain ⟨s, hm, hcs⟩ := mem_segments hc hs
    exact isReserved_of_checkSegments h s hm c hcs

structure Plain (n : ClassName) : Prop where
  valid : n.Valid
  isArray : n.isArray = false

theorem Plain.semicolon {n : ClassName} (h : n.Plain) : ';' ∉ n.text.toList := by
  intro hm
  have ha : n.text.toList.head? ≠ some '[' := by simpa [ClassName.isArray] using h.isArray
  cases isReserved_of_check (check_of_valid h.valid) ha ';' hm (by decide)

theorem takeWhile_body {body rest : List Char} (h : ';' ∉ body) :
    (body ++ ';' :: rest).takeWhile (· ≠ ';') = body := by
  rw [List.takeWhile_append_of_pos (by grind)]
  simp

theorem dropWhile_body {body rest : List Char} (h : ';' ∉ body) :
    (body ++ ';' :: rest).dropWhile (· ≠ ';') = ';' :: rest := by
  rw [List.dropWhile_append_of_pos (by grind)]
  simp

theorem readBody_of_valid {n : ClassName} (hv : n.Valid) (hs : ';' ∉ n.text.toList)
    (rest : List Char) : readBody (n.text.toList ++ ';' :: rest) = .ok (n, rest) := by
  simp only [readBody, takeWhile_body hs, dropWhile_body hs, String.ofList_toList,
    ofString_of_valid hv]

end ClassName

structure Reader.Inverts {α : Type} (read : Reader α) (render : α → List Char)
    (names : α → List ClassName) : Prop where
  sound {cs rest : List Char} {a : α} : read cs = .ok (a, rest) → cs = render a ++ rest
  complete {a : α} (rest : List Char) :
    (∀ n ∈ names a, n.Plain) → read (render a ++ rest) = .ok (a, rest)

theorem ClassName.inverts : Reader.Inverts read render fun n => [n] where
  sound {cs rest n} h := by
    simp only [read] at h
    split at h
    · rw [eq_of_readBody h]
      simp [render]
    · cases h
  complete {n} rest h := by
    have hn := h n (by simp)
    simpa [render, read] using readBody_of_valid hn.valid hn.semicolon rest

namespace FieldType

def names : FieldType → List ClassName
  | .base _ => []
  | .object n => [n]
  | .array t => t.names

theorem inverts : Reader.Inverts read render names where
  sound := eq_of_read
  complete {t} rest h := by
    induction t with
    | base b => cases b <;> rfl
    | object n =>
        have hn := h n (by simp [names])
        have hr := ClassName.readBody_of_valid hn.valid hn.semicolon rest
        simp [render, ClassName.render, read, hr]
    | array t ih =>
        have hr := ih h
        simp [render, read, hr]

theorem head_render (t : FieldType) : t.render.head? ≠ some ')' ∧ t.render.head? ≠ some 'V' := by
  cases t with
  | base b => cases b <;> simp [render, BaseType.render, BaseType.code]
  | object n => simp [render, ClassName.render]
  | array t => simp [render]

end FieldType

namespace MethodType

def names (m : MethodType) : List ClassName :=
  m.parameters.flatMap FieldType.names ++ m.result.toList.flatMap FieldType.names

def renderResult : Option FieldType → List Char
  | none => ['V']
  | some t => t.render

theorem render_eq (m : MethodType) :
    m.render = '(' :: (m.parameters.flatMap FieldType.render ++ ')' :: renderResult m.result) := by
  cases m with
  | mk parameters result => cases result <;> simp [render, renderResult]

theorem readParameters_cons {cs : List Char} (h : cs.head? ≠ some ')') :
    readParameters cs =
      match FieldType.read cs with
      | .error e => .error e
      | .ok (t, rest) =>
          match readParameters rest with
          | .error e => .error e
          | .ok (ts, rest) => .ok (t :: ts, rest) := by
  rw [readParameters.eq_def]
  split
  · simp at h
  · cases hr : FieldType.read cs with
    | error e => rfl
    | ok p => rfl

theorem readResult_some {cs : List Char} (h : cs.head? ≠ some 'V') :
    readResult cs = (FieldType.read cs).map fun p => (some p.1, p.2) := by
  rw [readResult.eq_def]
  split
  · simp at h
  · cases FieldType.read cs <;> rfl

theorem eq_of_readParameters {cs rest : List Char} {ts : List FieldType}
    (h : readParameters cs = .ok (ts, rest)) :
    cs = ts.flatMap FieldType.render ++ ')' :: rest := by
  fun_induction readParameters cs generalizing ts rest with
  | case1 tail =>
      cases h
      rfl
  | case2 => cases h
  | case3 => cases h
  | case4 cs _ t tail hr ts tail' hrest ih =>
      cases h
      rw [FieldType.eq_of_read hr, ih hrest]
      simp

theorem readParameters_render {ts : List FieldType} (rest : List Char)
    (h : ∀ t ∈ ts, ∀ n ∈ t.names, n.Plain) :
    readParameters (ts.flatMap FieldType.render ++ ')' :: rest) = .ok (ts, rest) := by
  induction ts with
  | nil => simp [readParameters]
  | cons t ts ih =>
      have ht := FieldType.inverts.complete (ts.flatMap FieldType.render ++ ')' :: rest)
        (h t (by simp))
      have hts := ih fun u hu => h u (List.mem_cons_of_mem _ hu)
      rw [List.flatMap_cons, List.append_assoc, readParameters_cons, ht]
      · simp [hts]
      · rw [List.head?_append_of_ne_nil _ t.render_ne_nil]
        exact t.head_render.1

theorem eq_of_readResult {cs rest : List Char} {r : Option FieldType}
    (h : readResult cs = .ok (r, rest)) : cs = renderResult r ++ rest := by
  unfold readResult at h
  split at h
  · cases h
    rfl
  · split at h
    · cases h
    · rename_i hr
      cases h
      exact FieldType.eq_of_read hr

theorem readResult_render {r : Option FieldType} (rest : List Char)
    (h : ∀ t ∈ r, ∀ n ∈ t.names, n.Plain) :
    readResult (renderResult r ++ rest) = .ok (r, rest) := by
  cases r with
  | none => rfl
  | some t =>
      have ht := FieldType.inverts.complete rest (h t rfl)
      rw [renderResult, readResult_some, ht]
      · rfl
      · rw [List.head?_append_of_ne_nil _ t.render_ne_nil]
        exact t.head_render.2

theorem inverts : Reader.Inverts read render names where
  sound {cs rest m} h := by
    unfold read at h
    split at h
    · split at h
      · cases h
      · rename_i hp
        split at h
        · cases h
        · rename_i hr
          cases h
          rw [eq_of_readParameters hp, eq_of_readResult hr, render_eq]
          simp
    · cases h
  complete {m} rest h := by
    simp only [names, List.mem_append, List.mem_flatMap, Option.mem_toList] at h
    have hp : readParameters _ = .ok (m.parameters, renderResult m.result ++ rest) :=
      readParameters_render _ fun t ht n hn => h n (.inl ⟨t, ht, hn⟩)
    have hr : readResult _ = .ok (m.result, rest) :=
      readResult_render rest fun t ht n hn => h n (.inr ⟨t, ht, hn⟩)
    rw [render_eq]
    simp [read, hp, hr]

end MethodType

namespace Reader

structure Canonical {α : Type} (read : Reader α) (render : α → List Char)
    (names : α → List ClassName) : Prop where
  render_parse (s : String) (a : α) : read.all s = .ok a → String.ofList (render a) = s
  parse_render (a : α) : (∀ n ∈ names a, n.Plain) → read.all (String.ofList (render a)) = .ok a
  unique (s : String) (a b : α) : read.all s = .ok a → (∀ n ∈ names b, n.Plain) →
    String.ofList (render b) = s → b = a
  injective (a b : α) : (∀ n ∈ names a, n.Plain) → (∀ n ∈ names b, n.Plain) →
    String.ofList (render a) = String.ofList (render b) → a = b

theorem Inverts.canonical {α : Type} {read : Reader α} {render : α → List Char}
    {names : α → List ClassName} (h : Inverts read render names) : Canonical read render names := by
  have parse (a : α) (ha : ∀ n ∈ names a, n.Plain) : read.all (String.ofList (render a)) = .ok a := by
    have hr := h.complete [] ha
    rw [List.append_nil] at hr
    simp [all, hr]
  have unique (s : String) (a b : α) (hs : read.all s = .ok a) (hb : ∀ n ∈ names b, n.Plain)
      (he : String.ofList (render b) = s) : b = a := by
    have hp := parse b hb
    rw [he, hs] at hp
    exact (Except.ok.inj hp).symm
  constructor
  case render_parse =>
    intro s a hs
    have ht := h.sound (of_all hs)
    rw [List.append_nil] at ht
    rw [← ht, String.ofList_toList]
  case parse_render => exact parse
  case unique => exact unique
  case injective =>
    intro a b ha hb he
    exact unique _ b a (he ▸ parse b hb) ha he

end Reader

namespace MethodRef

theorem nativeKey_ne {m m' : MethodRef} (h : ∀ n ∈ m.type.names, n.Plain)
    (h' : ∀ n ∈ m'.type.names, n.Plain) (hne : m.type ≠ m'.type) : m.nativeKey ≠ m'.nativeKey := by
  intro he
  have ht : m.type.text = m'.type.text := (NativeKey.mk.inj he).2.2
  exact hne (MethodType.inverts.canonical.injective _ _ h h' ht)

end MethodRef

theorem descriptors_canonical :
    Reader.Canonical ClassName.read ClassName.render (fun n => [n]) ∧
    Reader.Canonical FieldType.read FieldType.render FieldType.names ∧
    Reader.Canonical MethodType.read MethodType.render MethodType.names ∧
    ∀ (table : NativeTable) (m m' : MethodRef),
      (∀ n ∈ m.type.names, n.Plain) → (∀ n ∈ m'.type.names, n.Plain) → m.type ≠ m'.type →
        m.nativeKey ≠ m'.nativeKey ∧
        ∀ f, (table.put m.nativeKey f).get? m'.nativeKey = table.get? m'.nativeKey := by
  constructor
  · exact ClassName.inverts.canonical
  constructor
  · exact FieldType.inverts.canonical
  constructor
  · exact MethodType.inverts.canonical
  · intro table m m' h h' hne
    have hk := MethodRef.nativeKey_ne h h' hne
    refine ⟨hk, fun f => ?_⟩
    rw [Entries.get?_put, if_neg hk]

theorem descriptors_canonical_of_overloads :
    FieldType.parse "[[Lt/A;" = .ok (.array (.array (.object ⟨"t/A"⟩))) ∧
    (MethodRef.mk ⟨"t/N"⟩ ⟨"log"⟩ (.void [.array (.object ⟨"t/A"⟩)])).nativeKey ≠
      (MethodRef.mk ⟨"t/N"⟩ ⟨"log"⟩ (.void [.object ⟨"t/A"⟩])).nativeKey := by
  have hp : (ClassName.mk "t/A").Plain := ⟨by decide +kernel, by decide⟩
  obtain ⟨-, hf, -, hn⟩ := descriptors_canonical
  constructor
  · exact hf.parse_render (.array (.array (.object ⟨"t/A"⟩))) (by simpa [FieldType.names] using hp)
  · exact (hn [] _ _ (by simpa [MethodType.names, MethodType.void, FieldType.names] using hp)
      (by simpa [MethodType.names, MethodType.void, FieldType.names] using hp) (by decide)).1

end BytecodeMachine
