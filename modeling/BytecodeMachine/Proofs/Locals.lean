import BytecodeMachine.Proofs.Actions
import BytecodeMachine.Proofs.CallTyping

namespace BytecodeMachine

namespace Frame

variable {locals : Array Slot} {i j k n : Nat} {v : Value} {f : Frame}

def WideAt (locals : Array Slot) (k : Nat) : Prop :=
  ∃ v, locals[k]? = some (.value v) ∧ v.width = 2

structure Paired (locals : Array Slot) : Prop where
  first : locals[0]? ≠ some .top
  next : ∀ k, locals[k + 1]? = some .top ↔ WideAt locals k

-- The slot is one of the two of a wide value that a write of `n` slots from `i` on overlaps.
def Struck (locals : Array Slot) (i n j : Nat) : Prop :=
  ∃ k, WideAt locals k ∧ (j = k ∨ j = k + 1) ∧ i < k + 2 ∧ k < i + n

theorem Paired.struck_iff (h : Paired locals) (hj : j < i ∨ i + n ≤ j) (hn : 0 < n) :
    Struck locals i n j ↔
      locals[i]? = some .top ∧ i = j + 1 ∨ locals[j]? = some .top ∧ j = i + n := by
  constructor
  · rintro ⟨k, hk, hjk, hlow, hhigh⟩
    have htop := (h.next k).2 hk
    rcases hjk with rfl | rfl
    · have hi : i = j + 1 := by omega
      exact .inl ⟨hi ▸ htop, hi⟩
    · exact .inr ⟨htop, by omega⟩
  · rintro (⟨htop, rfl⟩ | ⟨htop, rfl⟩)
    · exact ⟨j, (h.next j).1 htop, .inl rfl, by omega, by omega⟩
    · obtain ⟨k, hk⟩ : ∃ k, i + n = k + 1 := ⟨i + n - 1, by omega⟩
      rw [hk] at htop
      exact ⟨k, (h.next k).1 htop, .inr hk, by omega, by omega⟩

theorem Paired.ne_top (h : Paired locals) (k : Nat) (hk : locals[k + 1]? = some .top) :
    locals[k]? ≠ some .top := by
  obtain ⟨v, hv, -⟩ := (h.next k).1 hk
  rw [hv]
  nofun

theorem getElem?_dropLower (locals : Array Slot) (i j : Nat) :
    (dropLower locals i)[j]? =
      if locals[i]? = some .top ∧ i = j + 1 then some .empty else locals[j]? := by
  unfold dropLower
  split
  · rename_i h
    split
    · rw [Array.getElem?_setIfInBounds]
      grind
    · grind
  · grind

theorem getElem?_dropUpper (h : locals[i + 1]? = some .top ↔ WideAt locals i) :
    (dropUpper locals i)[j]? =
      if locals[j]? = some .top ∧ j = i + 1 then some .empty else locals[j]? := by
  unfold dropUpper
  unfold WideAt at h
  split
  · rename_i u hu
    split
    · rw [Array.getElem?_setIfInBounds]
      grind
    · grind
  · grind

theorem getElem?_place (h : i + v.width ≤ locals.size) :
    (place locals i v)[j]? =
      if j = i then some (.value v)
      else if v.width = 2 ∧ j = i + 1 then some .top else locals[j]? := by
  have hwidth := v.width_eq_one_or_two
  unfold place
  dsimp only
  split
  · rw [Array.getElem?_setIfInBounds, Array.getElem?_setIfInBounds]
    grind
  · rw [Array.getElem?_setIfInBounds]
    grind

def written (locals : Array Slot) (i : Nat) (v : Value) : Array Slot :=
  place (dropUpper (dropLower locals i) (i + v.width - 1)) i v

@[simp] theorem size_dropLower (locals : Array Slot) (i : Nat) :
    (dropLower locals i).size = locals.size := by
  unfold dropLower
  split
  · split <;> simp
  · rfl

@[simp] theorem size_dropUpper (locals : Array Slot) (i : Nat) :
    (dropUpper locals i).size = locals.size := by
  unfold dropUpper
  split
  · split <;> simp
  · rfl

theorem Paired.getElem?_written (hp : Paired locals) (h : i + v.width ≤ locals.size) :
    (written locals i v)[j]? =
      if j = i then some (.value v)
      else if v.width = 2 ∧ j = i + 1 then some .top
      else if locals[i]? = some .top ∧ i = j + 1 ∨ locals[j]? = some .top ∧ j = i + v.width then
        some .empty
      else locals[j]? := by
  have hwidth := v.width_eq_one_or_two
  have hlast : i + v.width - 1 + 1 = i + v.width := by omega
  -- The first repair is below the place where the second one looks.
  have habove (k : Nat) (hk : i ≤ k) : (dropLower locals i)[k]? = locals[k]? := by
    rw [getElem?_dropLower, if_neg (by omega)]
  have hnext : (dropLower locals i)[i + v.width - 1 + 1]? = some .top ↔
      WideAt (dropLower locals i) (i + v.width - 1) := by
    rw [WideAt, habove _ (by omega), habove _ (by omega)]
    exact hp.next _
  rw [written, getElem?_place (by simpa using h), getElem?_dropUpper hnext, getElem?_dropLower,
    hlast]
  grind

theorem Paired.written (hp : Paired locals) (h : i + v.width ≤ locals.size) :
    Paired (written locals i v) := by
  have hwidth := v.width_eq_one_or_two
  refine ⟨?_, fun k => ?_⟩
  · have hfirst := hp.first
    rw [hp.getElem?_written h]
    grind
  · have hk := hp.next k
    have hlow := hp.ne_top k
    have hhigh := hp.ne_top (k + 1)
    unfold WideAt at hk ⊢
    rw [hp.getElem?_written h, hp.getElem?_written h]
    rcases Nat.lt_trichotomy k i with hki | rfl | hki
    · -- Below the value, the half of a wide value is left only if so is the other half.
      grind
    · -- The value itself, with the slot above it.
      grind
    · -- Above the value, likewise; the slot right above a wide one has its top.
      grind

theorem paired_replicate (n : Nat) : Paired (Array.replicate n .empty) := by
  constructor
  · grind
  · unfold WideAt
    grind

theorem Paired.cons {slots : List Slot} (h : Paired slots.toArray) (v : Value) :
    Paired (pack [v] ++ slots).toArray := by
  obtain ⟨hfirst, hnext⟩ := h
  simp only [WideAt, List.getElem?_toArray] at hfirst hnext
  unfold pack
  by_cases hv : v.width = 2
  · refine ⟨by simp [hv], fun k => ?_⟩
    rcases k with _ | _ | k
    · simp [WideAt, hv]
    · simpa [WideAt, hv] using hfirst
    · simpa [WideAt, hv] using hnext k
  · refine ⟨by simp [hv], fun k => ?_⟩
    rcases k with _ | k
    · simpa [WideAt, hv] using hfirst
    · simpa [WideAt, hv] using hnext k

theorem paired_pack (arguments : List Value) (n : Nat) :
    Paired (pack arguments ++ List.replicate n Slot.empty).toArray := by
  induction arguments with
  | nil => simpa [pack] using paired_replicate n
  | cons v vs ih =>
    rw [← List.singleton_append, pack_append, List.append_assoc]
    exact ih.cons v

-- The frame has run nothing yet: it was made for a call, or it is blank with empty locals.
inductive Unused (f : Frame) : Prop
  | entered {c : Class} {m : Method} {arguments : List Value} (h : enter c m arguments = .ok f)
  | blank (n : Nat) (h : f = { blank with locals := Array.replicate n .empty })

theorem Unused.paired (h : Unused f) : Paired f.locals := by
  cases h with
  | entered h =>
    obtain ⟨code, -, -, rfl⟩ := enter_eq_ok_iff.1 h
    exact paired_pack _ _
  | blank n h =>
    subst h
    exact paired_replicate n

end Frame

namespace FrameM

variable {f : Frame} {i : Nat} {v : Value}

theorem run_store (i : Nat) (v : Value) (f : Frame) : (store i v).run.run f =
    if f.locals.size < i + v.width then (.error (.fatal (.localOutOfRange i)), f)
    else (.ok (), { f with locals := Frame.written f.locals i v }) := by
  rw [store, run_bind]
  change (ofExcept (f.store i v) >>= set).run.run f = _
  rw [run_bind, Frame.store]
  by_cases h : f.locals.size < i + v.width
  · rw [if_pos h, if_pos h]
    rfl
  · rw [if_neg h, if_neg h]
    rfl

def stores (f : Frame) (writes : List (Nat × Value)) : Frame :=
  writes.foldl (fun f w => ((store w.1 w.2).run.run f).2) f

end FrameM

namespace Frame

theorem Paired.stores (h : Paired f.locals) (writes : List (Nat × Value)) :
    Paired (FrameM.stores f writes).locals := by
  induction writes generalizing f with
  | nil => exact h
  | cons w ws ih =>
    refine ih ?_
    dsimp only
    rw [FrameM.run_store]
    split
    · exact h
    · exact h.written (by omega)

structure Overwrites (f g : Frame) (i : Nat) (v : Value) : Prop where
  rest : g = { f with locals := g.locals }
  value : g.load i = .ok v
  upper : v.width = 2 → ∃ fault, g.load (i + 1) = .error fault
  struck : ∀ j, j < i ∨ i + v.width ≤ j → Struck f.locals i v.width j →
    ∃ fault, g.load j = .error fault
  others : ∀ j, j < i ∨ i + v.width ≤ j → ¬ Struck f.locals i v.width j → g.load j = f.load j

theorem Paired.overwrites (hp : Paired f.locals) (h : i + v.width ≤ f.locals.size) :
    Overwrites f { f with locals := Frame.written f.locals i v } i v := by
  have hwidth := v.width_eq_one_or_two
  have slot (j : Nat) := hp.getElem?_written (j := j) h
  refine ⟨rfl, ?_, fun hv => ?_, fun j hj hs => ?_, fun j hj hs => ?_⟩
  · rw [load, slot, if_pos rfl]
  · refine ⟨.upperHalf (i + 1), ?_⟩
    rw [load, slot, if_neg (by omega), if_pos ⟨hv, rfl⟩]
  all_goals rw [hp.struck_iff hj (by omega)] at hs
  · refine ⟨.unset j, ?_⟩
    rw [load, slot, if_neg (by omega), if_neg (by omega), if_pos hs]
  · rw [load, slot, if_neg (by omega), if_neg (by omega), if_neg hs, load]

theorem stores_keep_wide_values_paired (hf : Unused f) (writes : List (Nat × Value)) :
    let g := FrameM.stores f writes
    Paired g.locals ∧
    ∀ (i : Nat) (v : Value),
      (g.locals.size < i + v.width →
        (FrameM.store i v).run.run g = (.error (.fatal (.localOutOfRange i)), g)) ∧
      (i + v.width ≤ g.locals.size →
        ∃ g', (FrameM.store i v).run.run g = (.ok (), g') ∧ Overwrites g g' i v) := by
  intro g
  have hp : Paired g.locals := hf.paired.stores writes
  refine ⟨hp, fun i v => ⟨fun h => ?_, fun h => ⟨_, ?_, hp.overwrites h⟩⟩⟩
  · rw [FrameM.run_store, if_pos h]
  · rw [FrameM.run_store, if_neg (by omega)]

def takesLong : Method :=
  ⟨.object, ⟨"take"⟩, ⟨[.base .long], none⟩, ⟨Flag.isStatic⟩, some (.plain 4 [])⟩

-- The value written strikes the argument and the one above it.
theorem stores_keep_wide_values_paired_of_neighbours :
    ∃ f, enter (.start .object none [] none .plain .regular) takesLong [.long 7] = .ok f ∧
      let g := FrameM.stores f [(2, .double .zero)]
      Paired g.locals ∧ (Struck g.locals 1 2 0 ∧ Struck g.locals 1 2 3) ∧
        ∃ g', (FrameM.store 1 (.long 5)).run.run g = (.ok (), g') ∧
          Overwrites g g' 1 (.long 5) := by
  have hf : enter (.start .object none [] none .plain .regular) takesLong [.long 7] = .ok _ := rfl
  obtain ⟨hp, h⟩ := stores_keep_wide_values_paired (.entered hf) [(2, .double .zero)]
  refine ⟨_, hf, ?_⟩
  refine ⟨hp, ⟨?_, ?_⟩, (h 1 (.long 5)).2 (by decide)⟩
  · exact ⟨0, ⟨.long 7, rfl, rfl⟩, .inl rfl, by decide, by decide⟩
  · exact ⟨2, ⟨.double .zero, rfl, rfl⟩, .inr rfl, by decide, by decide⟩

end Frame

end BytecodeMachine
