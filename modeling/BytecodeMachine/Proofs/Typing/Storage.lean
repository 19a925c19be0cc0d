import BytecodeMachine.Bridge.ArrayCopy

namespace BytecodeMachine

theorem ElementKind.eq_of_narrow? {v : Value} {o : ObjectId} (e : ElementKind) {x : e.Elem}
    (h : e.narrow? v = some x) (hw : e.widen x = .object o) : v = .object o := by
  cases e
  case reference =>
    cases v <;> cases h
    exact hw
  all_goals cases hw

namespace ArrayStorage

variable {s source r : ArrayStorage} {o : ObjectId} {start dest count : Nat}

def Has (s : ArrayStorage) (o : ObjectId) : Prop := Value.object o ∈ s.toList

theorem not_has_new (t : FieldType) (length : Nat) (o : ObjectId) : ¬ (new t length).Has o := by
  intro h
  obtain ⟨x, hx, hw⟩ := List.mem_map.1 h
  have hz : x = (ElementKind.ofType t).zero := by
    simpa using Array.eq_of_mem_replicate (Array.mem_toList_iff.1 hx)
  subst hz
  revert hw
  change (ElementKind.ofType t).widen (ElementKind.ofType t).zero ≠ Value.object o
  cases ElementKind.ofType t <;> simp [ElementKind.widen, ElementKind.zero, Value.object]

theorem not_has_of_kind (h : s.kind ≠ .reference) (o : ObjectId) : ¬ s.Has o := by
  intro ho
  obtain ⟨x, -, hw⟩ := List.mem_map.1 ho
  have hk := s.kind.kind_widen x
  rw [hw] at hk
  refine h ?_
  revert hk
  cases s.kind <;> simp [Value.object, Value.kind, ElementKind.kind]

theorem kind_put (s : ArrayStorage) (i : Nat) (v : Value) : (s.put i v).kind = s.kind := by
  unfold put
  split
  split <;> rfl

theorem length_put (s : ArrayStorage) (i : Nat) (v : Value) : (s.put i v).length = s.length := by
  unfold put
  split
  split <;> simp [length]

theorem has_put {i : Nat} {v : Value} (h : (s.put i v).Has o) : s.Has o ∨ v = .object o := by
  obtain ⟨k, xs⟩ := s
  simp only [put] at h
  cases hn : k.narrow? v with
  | none =>
    rw [hn] at h
    exact .inl h
  | some x =>
    rw [hn] at h
    obtain ⟨y, hy, hw⟩ := List.mem_map.1 h
    rw [Array.toList_setIfInBounds] at hy
    rcases List.mem_or_eq_of_mem_set hy with hy | hy
    · exact .inl (List.mem_map.2 ⟨y, hy, hw⟩)
    · exact .inr (k.eq_of_narrow? hn (hy ▸ hw))

theorem mem_splice {α : Type} {xs ys : Array α} {x : α}
    (h : x ∈ (splice xs ys start dest count).toList) :
    x ∈ xs.toList ∨ x ∈ (ys.toList.drop start).take count := by
  simp only [splice, Array.toList_append, Array.toList_extract, List.extract_eq_take_drop,
    List.mem_append, List.drop_zero, Nat.add_sub_cancel_left] at h
  rcases h with (h | h) | h
  · exact .inl (List.mem_of_mem_take h)
  · exact .inr h
  · exact .inl (List.mem_of_mem_drop (List.mem_of_mem_take h))

theorem size_splice {α : Type} {xs ys : Array α} (hs : start + count ≤ ys.size)
    (hd : dest + count ≤ xs.size) : (splice xs ys start dest count).size = xs.size := by
  simp only [splice, Array.size_append, Array.size_extract]
  omega

theorem length_copyWithin {s : ArrayStorage} (hs : start + count ≤ s.length) (hd : dest + count ≤ s.length) :
    (s.copyWithin start dest count).length = s.length :=
  size_splice hs hd

theorem has_copyWithin (h : (s.copyWithin start dest count).Has o) : s.Has o := by
  obtain ⟨x, hx, hw⟩ := List.mem_map.1 h
  refine List.mem_map.2 ⟨x, ?_, hw⟩
  rcases mem_splice hx with hx | hx
  · exact hx
  · exact List.mem_of_mem_drop (List.mem_of_mem_take hx)

theorem copyFrom_eq (h : s.copyFrom source start dest count = .ok r) :
    ∃ hk : source.kind = s.kind, r = ⟨s.kind, splice s.elems (hk ▸ source.elems) start dest count⟩ := by
  unfold copyFrom at h
  split at h
  · rename_i hk
    exact ⟨hk, (Except.ok.inj h).symm⟩
  · cases h

theorem kind_copyFrom (h : s.copyFrom source start dest count = .ok r) : r.kind = s.kind := by
  obtain ⟨-, rfl⟩ := copyFrom_eq h
  rfl

theorem length_copyFrom (h : s.copyFrom source start dest count = .ok r)
    (hs : start + count ≤ source.length) (hd : dest + count ≤ s.length) : r.length = s.length := by
  obtain ⟨hk, rfl⟩ := copyFrom_eq h
  obtain ⟨k, xs⟩ := s
  obtain ⟨k', ys⟩ := source
  cases hk
  exact size_splice hs hd

theorem has_copyFrom (h : s.copyFrom source start dest count = .ok r) (ho : r.Has o) :
    s.Has o ∨ ∃ refs, source.refs? = some refs ∧ some o ∈ (refs.drop start).take count := by
  obtain ⟨hk, rfl⟩ := copyFrom_eq h
  obtain ⟨k, xs⟩ := s
  obtain ⟨k', ys⟩ := source
  cases hk
  obtain ⟨x, hx, hw⟩ := List.mem_map.1 ho
  rcases mem_splice hx with hx | hx
  · exact .inl (List.mem_map.2 ⟨x, hx, hw⟩)
  · right
    by_cases href : k = .reference
    · subst href
      refine ⟨_, rfl, ?_⟩
      cases hw
      exact hx
    · refine absurd ?_ (not_has_of_kind (s := ⟨k, ys⟩) href o)
      exact List.mem_map.2 ⟨x, List.mem_of_mem_drop (List.mem_of_mem_take hx), hw⟩

def ofRefs (refs : List (Option ObjectId)) : ArrayStorage := ⟨.reference, refs.toArray⟩

section References

variable {refs : List (Option ObjectId)}

theorem refs?_ofRefs (refs : List (Option ObjectId)) : (ofRefs refs).refs? = some refs := rfl

theorem new_of_isReference {t : FieldType} (h : t.isReference = true) (length : Nat) :
    new t length = ofRefs (List.replicate length none) := by
  rw [ofRefs, List.toArray_replicate]
  cases t with
  | base b => cases h
  | object n => rfl
  | array t => rfl

theorem checkStore_ofRefs {k : Nat} (hk : k < refs.length) (hl : refs.length ≤ 2147483648) :
    (ofRefs refs).checkStore (.ofNat k) (.object o) = .ok k := by
  have hi : (Int32.ofNat k).toInt = k := Int32.toInt_ofNat_of_lt (by omega)
  have hneg : ¬ Int32.ofNat k < 0 := by
    rw [Int32.lt_iff_toInt_lt, hi]
    simp
  have hlen : (ofRefs refs).length = refs.length := rfl
  simp only [checkStore, checkIndex, hneg, hi, hlen, Int.toNat_natCast, decide_false, Bool.false_or,
    Nat.not_le.2 hk]
  rfl

theorem put_ofRefs (pre rest : List (Option ObjectId)) (o : ObjectId) :
    (ofRefs (pre ++ none :: rest)).put pre.length (.object o) = ofRefs (pre ++ some o :: rest) := by
  have hset : (pre ++ none :: rest).toArray.setIfInBounds pre.length (some o) =
      (pre ++ some o :: rest).toArray := by simp
  simp only [ofRefs, put, Value.object, ElementKind.narrow?]
  exact congrArg (ArrayStorage.mk .reference) hset

end References

end ArrayStorage

namespace Machine

variable {m : Machine} {dest : Object} {k : Class} {refs : List (Option ObjectId)}

theorem checkCopied_eq_ok_iff : m.checkCopied dest refs = .ok () ↔
    ∃ k, dest.klass.component = some k ∧ ∀ o, some o ∈ refs → m.fitsComponent k o = true := by
  unfold checkCopied
  cases dest.klass.component with
  | none => exact ⟨nofun, nofun⟩
  | some k =>
    have hnone : m.misfit? k refs = none ↔ ∀ o, some o ∈ refs → m.fitsComponent k o = true := by
      rw [misfit?, List.find?_eq_none]
      simp
    cases hm : m.misfit? k refs with
    | none => simp [← hnone, hm]
    | some p => simp [← hnone, hm]

end Machine

end BytecodeMachine
