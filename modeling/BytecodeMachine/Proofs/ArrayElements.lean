import BytecodeMachine.Exec.Run
import BytecodeMachine.Proofs.Completion
import BytecodeMachine.Proofs.Integers.Words
import BytecodeMachine.Proofs.Shuffles
import BytecodeMachine.Proofs.Typing.Storage
import BytecodeMachine.Proofs.Typing.Writes

namespace BytecodeMachine

namespace ElementKind

variable {e : ElementKind} {v : Value}

-- What is left of a value in an element: of an integer its residue, with a sign except in characters.
def residue : ElementKind → Value → Value
  | .byte, .int n => .int (.ofInt (n.toInt.bmod (2 ^ 8)))
  | .char, .int n => .int (.ofInt (n.toInt % 2 ^ 16))
  | .short, .int n => .int (.ofInt (n.toInt.bmod (2 ^ 16)))
  | _, v => v

theorem bmod_bmod_word {z : Int} {m : Nat} (hm : 0 < m) (h : m ≤ 2 ^ 32) :
    (z.bmod m).bmod Int32.size = z.bmod m := by
  have hlow := Int.le_bmod (x := z) hm
  have hhigh := Int.bmod_lt (x := z) hm
  apply Int.bmod_eq_of_le <;> simp only [Int32.size] <;> omega

theorem widen_byte (n : Int32) : n.toInt8.toInt32 = .ofInt (n.toInt.bmod (2 ^ 8)) := by
  apply Int32.toInt_inj.1
  simp only [Int8.toInt_toInt32, Int32.toInt_toInt8, Int32.toInt_ofInt]
  exact (bmod_bmod_word (by decide) (by decide)).symm

theorem widen_short (n : Int32) : n.toInt16.toInt32 = .ofInt (n.toInt.bmod (2 ^ 16)) := by
  apply Int32.toInt_inj.1
  simp only [Int16.toInt_toInt32, Int32.toInt_toInt16, Int32.toInt_ofInt]
  exact (bmod_bmod_word (by decide) (by decide)).symm

theorem widen_char (n : Int32) :
    n.toUInt32.toUInt16.toUInt32.toInt32 = .ofInt (n.toInt % 2 ^ 16) := by
  apply Int32.toInt_inj.1
  rw [toInt_lowHalf, Int32.toInt_ofInt]
  rfl

theorem widen_of_narrow? {x : e.Elem} (h : e.narrow? v = some x) : e.widen x = e.residue v := by
  cases e <;> cases v <;> cases h
  case byte n => exact congrArg Value.int (widen_byte n)
  case short n => exact congrArg Value.int (widen_short n)
  case char n => exact congrArg Value.int (widen_char n)
  all_goals rfl

theorem exists_narrow? (h : v.kind = e.kind) : ∃ x, e.narrow? v = some x := by
  apply Option.isSome_iff_exists.1
  simp [narrow?_isSome, h]

end ElementKind

namespace ArrayStorage

variable {a b : ArrayStorage} {index j : Int32} {v : Value} {writes : List (Int32 × Value)}

def Within (a : ArrayStorage) (index : Int32) : Prop := 0 ≤ index.toInt ∧ index.toInt < a.length

instance (a : ArrayStorage) (index : Int32) : Decidable (a.Within index) :=
  inferInstanceAs (Decidable (0 ≤ index.toInt ∧ index.toInt < a.length))

theorem checkIndex_of_within (h : a.Within index) : a.checkIndex index = .ok index.toInt.toNat := by
  obtain ⟨hlow, hhigh⟩ := h
  have hneg : ¬index < 0 := by simpa [Int32.lt_iff_toInt_lt] using hlow
  have hpast : ¬a.length ≤ index.toInt.toNat := by omega
  unfold checkIndex
  simp only [hneg, hpast, decide_false, Bool.or_self, Bool.false_eq_true, if_false]

theorem checkIndex_of_not_within (h : ¬a.Within index) :
    a.checkIndex index = .error (.raise (.indexOutOfBounds index a.length)) := by
  have hout : index < 0 ∨ a.length ≤ index.toInt.toNat := by
    simp only [Int32.lt_iff_toInt_lt, Int32.toInt_zero, Within] at h ⊢
    omega
  unfold checkIndex
  rw [if_pos (by simpa only [Bool.or_eq_true, decide_eq_true_eq] using hout)]

theorem load_of_within (h : a.Within index) :
    a.load index = .ok ((a.at? index.toInt.toNat).getD .null) := by
  simp [load, checkIndex_of_within h]

theorem load_of_not_within (h : ¬a.Within index) :
    a.load index = .error (.raise (.indexOutOfBounds index a.length)) := by
  simp [load, checkIndex_of_not_within h]

theorem store_of_fits (h : a.Within index) (hv : v.kind = a.kind.kind) :
    a.store index v = .ok (a.put index.toInt.toNat v) := by
  simp [store, checkStore, checkIndex_of_within h, hv, Except.map]

theorem store_of_mismatch (h : a.Within index) (hv : v.kind ≠ a.kind.kind) :
    a.store index v = .error (.fatal (.kindMismatch a.kind.kind v.kind)) := by
  simp [store, checkStore, checkIndex_of_within h, hv, Except.map]

theorem store_of_not_within (h : ¬a.Within index) (v : Value) :
    a.store index v = .error (.raise (.indexOutOfBounds index a.length)) := by
  simp [store, checkStore, checkIndex_of_not_within h, Except.map]

theorem store_eq_ok_iff : a.store index v = .ok b ↔
    a.Within index ∧ v.kind = a.kind.kind ∧ a.put index.toInt.toNat v = b := by
  by_cases h : a.Within index
  · by_cases hv : v.kind = a.kind.kind
    · simp [store_of_fits h hv, h, hv]
    · simp [store_of_mismatch h hv, hv]
  · simp [store_of_not_within h, h]

theorem put_of_narrow? {x : a.kind.Elem} (h : a.kind.narrow? v = some x) (i : Nat) :
    a.put i v = ⟨a.kind, a.elems.setIfInBounds i x⟩ := by
  obtain ⟨e, xs⟩ := a
  simp only [put]
  rw [h]

theorem put_of_unfit (h : a.kind.narrow? v = none) (i : Nat) : a.put i v = a := by
  obtain ⟨e, xs⟩ := a
  simp only [put]
  rw [h]

theorem at?_put_self {i : Nat} (hv : v.kind = a.kind.kind) (hi : i < a.length) :
    (a.put i v).at? i = some (a.kind.residue v) := by
  obtain ⟨x, hx⟩ := ElementKind.exists_narrow? hv
  have hi : i < a.elems.size := hi
  rw [put_of_narrow? hx]
  simp [at?, hi, ElementKind.widen_of_narrow? hx]

theorem at?_put_of_ne {i k : Nat} (h : k ≠ i) : (a.put i v).at? k = a.at? k := by
  cases hx : a.kind.narrow? v with
  | none => rw [put_of_unfit hx]
  | some x =>
    rw [put_of_narrow? hx]
    simp [at?, Ne.symm h]

theorem within_congr_length (h : b.length = a.length) (index : Int32) :
    b.Within index ↔ a.Within index := by
  simp [Within, h]

theorem load_put_self (h : a.Within index) (hv : v.kind = a.kind.kind) :
    (a.put index.toInt.toNat v).load index = .ok (a.kind.residue v) := by
  have hat : index.toInt.toNat < a.length := by
    have := h.1
    have := h.2
    omega
  have hput := (within_congr_length (length_put a index.toInt.toNat v) index).2 h
  rw [load_of_within hput, at?_put_self hv hat]
  rfl

theorem load_put_of_ne (h : a.Within index) (hj : j ≠ index) :
    (a.put index.toInt.toNat v).load j = a.load j := by
  have hput := within_congr_length (length_put a index.toInt.toNat v) j
  by_cases hin : a.Within j
  · have hne : j.toInt.toNat ≠ index.toInt.toNat := by
      intro heq
      apply hj
      apply Int32.toInt_inj.1
      have := h.1
      have := hin.1
      omega
    rw [load_of_within (hput.2 hin), load_of_within hin, at?_put_of_ne hne]
  · have hout : ¬(a.put index.toInt.toNat v).Within j := fun h' => hin (hput.1 h')
    rw [load_of_not_within hout, load_of_not_within hin, length_put]

structure StoresLike (a : ArrayStorage) (index : Int32) (v : Value) : Prop where
  done : (∃ b, a.store index v = .ok b) ↔ a.Within index ∧ v.kind = a.kind.kind
  shape : ∀ b, a.store index v = .ok b → b.kind = a.kind ∧ b.length = a.length
  here : ∀ b, a.store index v = .ok b → b.load index = .ok (a.kind.residue v)
  elsewhere : ∀ b, a.store index v = .ok b → ∀ j, j ≠ index → b.load j = a.load j
  outside : ¬a.Within index →
    a.store index v = .error (.raise (.indexOutOfBounds index a.length)) ∧
      a.load index = .error (.raise (.indexOutOfBounds index a.length))
  unfit : a.Within index → v.kind ≠ a.kind.kind →
    a.store index v = .error (.fatal (.kindMismatch a.kind.kind v.kind))

theorem storesLike (a : ArrayStorage) (index : Int32) (v : Value) : a.StoresLike index v where
  done := by simp [store_eq_ok_iff]
  shape b h := by
    obtain ⟨-, -, rfl⟩ := store_eq_ok_iff.1 h
    simp [kind_put, length_put]
  here b h := by
    obtain ⟨hin, hv, rfl⟩ := store_eq_ok_iff.1 h
    exact load_put_self hin hv
  elsewhere b h j hj := by
    obtain ⟨hin, -, rfl⟩ := store_eq_ok_iff.1 h
    exact load_put_of_ne hin hj
  outside h := ⟨store_of_not_within h v, load_of_not_within h⟩
  unfit := store_of_mismatch

def stored (a : ArrayStorage) (index : Int32) (v : Value) : ArrayStorage :=
  match a.store index v with
  | .ok b => b
  | .error _ => a

def storedAll (a : ArrayStorage) (writes : List (Int32 × Value)) : ArrayStorage :=
  writes.foldl (fun b w => b.stored w.1 w.2) a

def lastAt? (e : ElementKind) (index : Int32) (writes : List (Int32 × Value)) : Option Value :=
  (writes.reverse.find? fun w => w.1 = index && w.2.kind = e.kind).map (·.2)

theorem kind_stored (a : ArrayStorage) (index : Int32) (v : Value) :
    (a.stored index v).kind = a.kind := by
  unfold stored
  split
  · rename_i h
    exact ((a.storesLike index v).shape _ h).1
  · rfl

theorem length_stored (a : ArrayStorage) (index : Int32) (v : Value) :
    (a.stored index v).length = a.length := by
  unfold stored
  split
  · rename_i h
    exact ((a.storesLike index v).shape _ h).2
  · rfl

theorem load_stored (h : a.Within j) : (a.stored index v).load j =
    if index = j ∧ v.kind = a.kind.kind then .ok (a.kind.residue v) else a.load j := by
  unfold stored
  split
  · rename_i b hb
    have hfit := (a.storesLike index v).done.1 ⟨b, hb⟩
    by_cases hj : index = j
    · subst hj
      simp [(a.storesLike index v).here b hb, hfit.2]
    · simp [(a.storesLike index v).elsewhere b hb j (Ne.symm hj), hj]
  · rename_i trap ht
    rw [if_neg]
    rintro ⟨rfl, hv⟩
    simp [store_of_fits h hv] at ht

theorem lastAt?_cons (e : ElementKind) (index : Int32) (w : Int32 × Value)
    (writes : List (Int32 × Value)) : lastAt? e index (w :: writes) =
      (lastAt? e index writes).or (if w.1 = index ∧ w.2.kind = e.kind then some w.2 else none) := by
  by_cases hw : w.1 = index ∧ w.2.kind = e.kind <;>
    cases h : writes.reverse.find? fun w => w.1 = index && w.2.kind = e.kind <;>
      simp [lastAt?, List.find?_append, h, hw]

theorem kind_storedAll (a : ArrayStorage) (writes : List (Int32 × Value)) :
    (a.storedAll writes).kind = a.kind := by
  induction writes generalizing a with
  | nil => rfl
  | cons w writes ih => exact (ih (a.stored w.1 w.2)).trans (kind_stored a w.1 w.2)

theorem length_storedAll (a : ArrayStorage) (writes : List (Int32 × Value)) :
    (a.storedAll writes).length = a.length := by
  induction writes generalizing a with
  | nil => rfl
  | cons w writes ih => exact (ih (a.stored w.1 w.2)).trans (length_stored a w.1 w.2)

theorem load_storedAll (h : a.Within index) : (a.storedAll writes).load index =
    match lastAt? a.kind index writes with
    | some v => .ok (a.kind.residue v)
    | none => a.load index := by
  induction writes generalizing a with
  | nil => rfl
  | cons w writes ih =>
    have hin := (within_congr_length (length_stored a w.1 w.2) index).2 h
    have hrest := ih hin
    rw [kind_stored, load_stored h] at hrest
    change ((a.stored w.1 w.2).storedAll writes).load index = _
    rw [hrest, lastAt?_cons]
    cases hlast : lastAt? a.kind index writes with
    | some v => simp
    | none => by_cases hw : w.1 = index ∧ w.2.kind = a.kind.kind <;> simp [hw]

-- Which stores are refused and why is up to the family and the length, and so settled beforehand.
theorem store_map_congr (hk : b.kind = a.kind) (hl : b.length = a.length) (index : Int32)
    (v : Value) :
    ((b.store index v).map fun _ => ()) = (a.store index v).map fun _ => () := by
  have hin := within_congr_length hl index
  by_cases h : a.Within index
  · by_cases hv : v.kind = a.kind.kind
    · rw [store_of_fits h hv, store_of_fits (hin.2 h) (hk ▸ hv)]
      rfl
    · rw [store_of_mismatch h hv, store_of_mismatch (hin.2 h) (hk ▸ hv), hk]
  · rw [store_of_not_within h, store_of_not_within (fun h' => h (hin.1 h')), hl]

end ArrayStorage

theorem Heap.modify_modify (h : Heap) (o : ObjectId) (f g : Object → Object) :
    (h.modify o f).modify o g = h.modify o (g ∘ f) := by
  obtain ⟨objects⟩ := h
  simp only [modify, Heap.mk.injEq]
  apply Array.ext_getElem?
  intro k
  by_cases hk : o.index = k <;> simp [Array.getElem?_modify, hk]

namespace Scene

variable {s : Scene} {o : ObjectId} {x : Object} {a b : ArrayStorage}

def refill (o : ObjectId) (a : ArrayStorage) (s : Scene) : Scene :=
  s.become { s.machine with heap := s.machine.heap.modify o (·.setStorage a) }

theorem get?_refill (hx : s.machine.heap.get? o = some x) (a : ArrayStorage) :
    (s.refill o a).machine.heap.get? o = some (x.setStorage a) := by
  simp [refill, become, Heap.get?_modify, hx]

theorem refill_refill (s : Scene) (o : ObjectId) (a b : ArrayStorage) :
    (s.refill o a).refill o b = s.refill o b := by
  simp only [refill, become, Heap.modify_modify]
  rfl

theorem refill_self (hx : s.machine.heap.get? o = some x) (ha : x.body = .array a) :
    s.refill o a = s := by
  have hsame : s.machine.heap.modify o (·.setStorage a) = s.machine.heap := by
    apply Heap.modify_self
    intro y hy
    cases hx.symm.trans hy
    simp [Object.setStorage, ← ha]
  simp [refill, become, hsame]

end Scene

namespace Exec

variable {β : Type} {Q : Post β} {i : Nat} {t : Thread} {s : Scene} {o : ObjectId} {x : Object}
  {a : ArrayStorage} {index : Int32} {v : Value} {f : Frame} {rest : List Value}
  {below : List Frame}

theorem ends_storage_bind {g : ArrayStorage → Exec β} (hx : s.machine.heap.get? o = some x)
    (ha : x.body = .array a) (h : (g a).Ends i t Q s) : (storage o >>= g).Ends i t Q s := by
  simpa [storage, object, hx, Object.storage, ha, ofExcept] using h

theorem ends_storeElement (hx : s.machine.heap.get? o = some x) (ha : x.body = .array a)
    (index : Int32) (v : Value) :
    (storeElement o index v).Ends i t (fun r t' s' =>
      r = ((a.store index v).map fun _ => ()) ∧ t' = t ∧ s' = s.refill o (a.stored index v)) s := by
  apply ends_storage_bind hx ha
  simp only [ends_bind, ends_ofTrap]
  cases hc : a.checkStore index v with
  | error trap =>
    have hs : a.store index v = .error trap := by simp [ArrayStorage.store, hc, Except.map]
    simp [ArrayStorage.stored, hs, Except.map, Scene.refill_self hx ha]
  | ok k =>
    have hs : a.store index v = .ok (a.put k v) := by simp [ArrayStorage.store, hc, Except.map]
    have hput : s.machine.heap.modify o (·.setElement k v) =
        s.machine.heap.modify o (·.setStorage (a.put k v)) := by
      apply Heap.modify_congr
      intro y hy
      cases hx.symm.trans hy
      exact Object.setElement_of_array ha k v
    simp [ArrayStorage.stored, hs, Except.map, Scene.refill, hput]

def storeEach (o : ObjectId) (writes : List (Int32 × Value)) : Exec (List (Except Trap Unit)) :=
  writes.mapM fun w => attempt (storeElement o w.1 w.2)

theorem ends_storeEach (hx : s.machine.heap.get? o = some x) (ha : x.body = .array a)
    (writes : List (Int32 × Value)) :
    (storeEach o writes).Ends i t (fun r t' s' =>
      r = .ok (writes.map fun w => (a.store w.1 w.2).map fun _ => ()) ∧ t' = t ∧
        s' = s.refill o (a.storedAll writes)) s := by
  induction writes generalizing s x a with
  | nil => simp [storeEach, ArrayStorage.storedAll, Scene.refill_self hx ha]
  | cons w writes ih =>
    have hstored := Scene.get?_refill hx (a.stored w.1 w.2)
    have hrest := ih hstored rfl
    simp only [storeEach, List.mapM_cons, ends_bind, ends_attempt]
    apply (ends_storeElement hx ha w.1 w.2).mono
    rintro r t' s' ⟨rfl, rfl, rfl⟩
    apply hrest.mono
    rintro r t' s' ⟨rfl, rfl, rfl⟩
    have hkind := a.kind_stored w.1 w.2
    have hlength := a.length_stored w.1 w.2
    simp [ArrayStorage.store_map_congr hkind hlength, Scene.refill_refill, ArrayStorage.storedAll]

theorem ends_popInt_bind {g : Int32 → Exec β}
    (ht : t.frames = { f with stack := .int index :: rest } :: below)
    (h : (g index).Ends i { t with frames := { f with stack := rest } :: below } Q s) :
    (inFrame .popInt >>= g).Ends i t Q s :=
  ends_bind.2 (ends_inFrame ht h)

theorem ends_popObject_bind {g : ObjectId → Exec β} {context : String}
    (ht : t.frames = { f with stack := .object o :: rest } :: below)
    (h : (g o).Ends i { t with frames := { f with stack := rest } :: below } Q s) :
    (inFrame (.popObject context) >>= g).Ends i t Q s :=
  ends_bind.2 (ends_inFrame ht h)

theorem ends_pop_bind {g : Value → Exec β}
    (ht : t.frames = { f with stack := v :: rest } :: below)
    (h : (g v).Ends i { t with frames := { f with stack := rest } :: below } Q s) :
    (inFrame .pop >>= g).Ends i t Q s :=
  ends_bind.2 (ends_inFrame ht h)

theorem ends_arrayLoad (hx : s.machine.heap.get? o = some x) (ha : x.body = .array a)
    (ht : t.frames = { f with stack := .int index :: .object o :: rest } :: below) :
    (arrayLoad a.kind).Ends i t (fun r t' s' =>
      r = ((a.load index).map fun _ => ()) ∧ s' = s ∧ t' = { t with frames :=
        { f with stack := (a.load index).toOption.toList ++ rest } :: below }) s := by
  apply ends_popInt_bind ht
  apply ends_popObject_bind rfl
  apply ends_storage_bind hx ha
  simp only [expectElements, if_pos, ends_bind, ends_pure, after_ok, ends_ofTrap]
  cases hl : a.load index with
  | error trap => simp [Except.map, Except.toOption]
  | ok v =>
    simp only [push, after_ok]
    apply ends_inFrame rfl
    exact ⟨rfl, rfl, rfl⟩

theorem ends_arrayStore (hx : s.machine.heap.get? o = some x) (ha : x.body = .array a)
    (hk : a.kind ≠ .reference)
    (ht : t.frames = { f with stack := v :: .int index :: .object o :: rest } :: below) :
    (arrayStore a.kind).Ends i t (fun r t' s' =>
      r = ((a.store index v).map fun _ => ()) ∧ s' = s.refill o (a.stored index v) ∧
        t' = { t with frames := { f with stack := rest } :: below }) s := by
  have hprimitive : arrayStore a.kind = (do
      let v ← inFrame .pop
      let index ← inFrame .popInt
      let o ← inFrame (.popObject "array store")
      expectElements (.arrayStore a.kind) a.kind (← storage o)
      storeElement o index v) := by
    cases h : a.kind <;> first | rfl | exact absurd h hk
  rw [hprimitive]
  apply ends_pop_bind ht
  apply ends_popInt_bind rfl
  apply ends_popObject_bind rfl
  apply ends_storage_bind hx ha
  simp only [expectElements, if_pos, ends_bind, ends_pure, after_ok]
  apply (ends_storeElement hx ha index v).mono
  rintro r t' s' ⟨rfl, rfl, rfl⟩
  exact ⟨rfl, rfl, rfl⟩

structure Accesses (engine : Engine) (i : Nat) (o : ObjectId) (a : ArrayStorage) (s : Scene) :
    Prop where
  load : ∀ (t : Thread) (f : Frame) (index : Int32) (rest : List Value) (below : List Frame),
    t.frames = { f with stack := .int index :: .object o :: rest } :: below →
      (execute engine (.arrayLoad a.kind)).Ends i t (fun r t' s' =>
        r = ((a.load index).map fun _ => ()) ∧ s' = s ∧ t' = { t with frames :=
          { f with stack := (a.load index).toOption.toList ++ rest } :: below }) s
  store : a.kind ≠ .reference → ∀ (t : Thread) (f : Frame) (index : Int32) (v : Value)
    (rest : List Value) (below : List Frame),
    t.frames = { f with stack := v :: .int index :: .object o :: rest } :: below →
      (execute engine (.arrayStore a.kind)).Ends i t (fun r t' s' =>
        r = ((a.store index v).map fun _ => ()) ∧ s' = s.refill o (a.stored index v) ∧
          t' = { t with frames := { f with stack := rest } :: below }) s

theorem accesses (engine : Engine) (i : Nat) (hx : s.machine.heap.get? o = some x)
    (ha : x.body = .array a) : Accesses engine i o a s where
  load _ _ _ _ _ ht := ends_arrayLoad hx ha ht
  store hk _ _ _ _ _ _ ht := ends_arrayStore hx ha hk ht

-- Stores of any values at any indexes, one after another: what is read afterwards and how the next
-- store ends, in the array by itself, on the heap and through the instructions.
theorem array_elements_read_over_writes (engine : Engine) (i : Nat) (a : ArrayStorage)
    (writes : List (Int32 × Value)) :
    let b := a.storedAll writes
    b.kind = a.kind ∧ b.length = a.length ∧
    (∀ index, a.Within index → b.load index =
      match ArrayStorage.lastAt? a.kind index writes with
      | some v => .ok (a.kind.residue v)
      | none => a.load index) ∧
    (∀ index v, b.StoresLike index v) ∧
    ∀ (t : Thread) (s : Scene) (o : ObjectId) (x : Object),
      s.machine.heap.get? o = some x → x.body = .array a →
      (storeEach o writes).Ends i t (fun r t' s' =>
        r = .ok (writes.map fun w => (a.store w.1 w.2).map fun _ => ()) ∧ t' = t ∧
          s' = s.refill o b) s ∧
      Accesses engine i o b (s.refill o b) := by
  intro b
  refine ⟨a.kind_storedAll writes, a.length_storedAll writes, ?_, b.storesLike, ?_⟩
  · intro index h
    exact ArrayStorage.load_storedAll h
  · intro t s o x hx ha
    constructor
    · exact ends_storeEach hx ha writes
    · apply accesses engine i
      · exact Scene.get?_refill hx b
      · rfl

theorem array_elements_read_over_writes_of_bytes :
    let a : ArrayStorage := .new (.base .byte) 2
    let writes : List (Int32 × Value) := [(0, .int 0x1ff), (2, .int 1), (1, .long 3)]
    let s : Scene := ⟨{ Machine.create [] .standard .standard .sound .sound (.ofVerbosity none) with
      heap := ⟨#[.ofStorage (.start .object none [] none .plain .regular) a]⟩ }, []⟩
    let f : Frame := { Frame.blank with stack := [.int 7, .int 5, .object ⟨0⟩] }
    let b := a.storedAll writes
    b.load 0 = .ok (.int (-1)) ∧ b.load 1 = .ok (.int 0) ∧
      (storeEach ⟨0⟩ writes).Ends 1 (.start 1 "main") (fun r _ s' => r = .ok [.ok (),
        .error (.raise (.indexOutOfBounds 2 2)), .error (.fatal (.kindMismatch .int .long))] ∧
        s' = s.refill ⟨0⟩ b) s ∧
      (execute (.bounded 1) (.arrayStore .byte)).Ends 1 { Thread.start 1 "main" with frames := [f] }
        (fun r _ s' => r = .error (.raise (.indexOutOfBounds 5 2)) ∧ s' = s.refill ⟨0⟩ b)
        (s.refill ⟨0⟩ b) := by
  intro a writes s f b
  obtain ⟨-, -, hload, -, hheap⟩ := array_elements_read_over_writes (.bounded 1) 1 a writes
  obtain ⟨hrun, haccess⟩ := hheap (.start 1 "main") s ⟨0⟩ _ rfl rfl
  have hstep := haccess.store nofun { Thread.start 1 "main" with frames := [f] } .blank 5 (.int 7)
    [] [] rfl
  refine ⟨hload 0 (by decide), hload 1 (by decide), hrun.mono ?_, hstep.mono ?_⟩
  · rintro r t' s' ⟨rfl, -, rfl⟩
    exact ⟨rfl, rfl⟩
  · rintro r t' s' ⟨rfl, rfl, -⟩
    exact ⟨rfl, Scene.refill_refill s ⟨0⟩ b b⟩

end Exec

end BytecodeMachine
