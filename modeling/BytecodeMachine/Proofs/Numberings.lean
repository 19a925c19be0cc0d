import BytecodeMachine.Numbering
import Mathlib.Data.List.Induction
import Mathlib.Data.List.Nodup

namespace BytecodeMachine.Numbering

variable {α : Type} [DecidableEq α] {n n' n'' : Numbering α} {x y : α} {id id' : Int32}

def Single (n : Numbering α) : Prop := n.entries.Nodup

def Lasts (n : Numbering α) : Prop := n.entries.length < 0x80000000

def HasRoom (n : Numbering α) : Prop := n.entries.length + 1 < 0x80000000

structure Extends (n n' : Numbering α) : Prop where
  earlier : n.entries <+: n'.entries
  single : n.Single → n'.Single

theorem Extends.refl (n : Numbering α) : n.Extends n := ⟨List.prefix_rfl, id⟩

theorem Extends.trans (h : n.Extends n') (h' : n'.Extends n'') : n.Extends n'' :=
  ⟨h.earlier.trans h'.earlier, fun hs => h'.single (h.single hs)⟩

theorem Lasts.of_extends (h : n'.Lasts) (he : n.Extends n') : n.Lasts :=
  Nat.lt_of_le_of_lt he.earlier.length_le h

theorem pos_of_get? (h : n.get? id = some x) : 0 < id := by
  unfold get? at h
  split at h
  · assumption
  · cases h

theorem get?_eq_some (h : n.Lasts) :
    n.get? id = some x ↔ ∃ i, n.entries[i]? = some x ∧ id = .ofNat (i + 1) := by
  have hlasts : n.entries.length < 0x80000000 := h
  have hpos : 0 < id ↔ 0 < id.toInt := Int32.lt_iff_toInt_lt
  unfold get?
  split
  · rename_i hid
    replace hid := hpos.1 hid
    refine ⟨fun hx => ⟨_, hx, ?_⟩, fun ⟨i, hi, he⟩ => ?_⟩
    · have hlt := id.toInt_lt
      refine Int32.toInt_inj.1 ?_
      rw [Int32.toInt_ofNat_of_lt (by omega)]
      omega
    · have hlt := (List.getElem?_eq_some_iff.1 hi).1
      rw [he, Int32.toInt_ofNat_of_lt (by omega)]
      exact hi
  · rename_i hid
    refine ⟨nofun, fun ⟨i, hi, he⟩ => absurd ?_ hid⟩
    have hlt := (List.getElem?_eq_some_iff.1 hi).1
    rw [hpos, he, Int32.toInt_ofNat_of_lt (by omega)]
    omega

theorem Extends.get? (h : n.Extends n') (hl : n'.Lasts) (hx : n.get? id = some x) :
    n'.get? id = some x := by
  obtain ⟨i, hi, rfl⟩ := (get?_eq_some (hl.of_extends h)).1 hx
  obtain ⟨hlt, rfl⟩ := List.getElem?_eq_some_iff.1 hi
  exact (get?_eq_some hl).2 ⟨i, List.prefix_iff_getElem?.1 h.earlier i hlt, rfl⟩

theorem Single.get?_inj (h : n.Single) (hl : n.Lasts) (hx : n.get? id = some x)
    (hy : n.get? id' = some y) : id = id' ↔ x = y := by
  refine ⟨fun he => Option.some.inj (hx.symm.trans (he ▸ hy)), fun he => ?_⟩
  obtain ⟨i, hi, rfl⟩ := (get?_eq_some hl).1 hx
  obtain ⟨j, hj, rfl⟩ := (get?_eq_some hl).1 hy
  obtain ⟨hilt, rfl⟩ := List.getElem?_eq_some_iff.1 hi
  obtain ⟨hjlt, rfl⟩ := List.getElem?_eq_some_iff.1 hj
  rw [h.getElem_inj_iff.1 he]

theorem number_cases (n : Numbering α) (x : α) :
    (∃ i, n.entries[i]? = some x ∧ n.number x = (.ofNat (i + 1), n)) ∨
    x ∉ n.entries ∧ (n.number x).1 = .ofNat (n.entries.length + 1) ∧
      (n.number x).2.entries = n.entries ++ [x] := by
  cases hx : n.entries.idxOf? x with
  | some i =>
    obtain ⟨hlt, hi, -⟩ := List.idxOf?_eq_some_iff.1 hx
    exact .inl ⟨i, List.getElem?_eq_some_iff.2 ⟨hlt, hi⟩, number_of_idxOf? hx⟩
  | none =>
    have hnot := List.idxOf?_eq_none_iff.1 hx
    exact .inr ⟨hnot, number_of_not_mem hnot⟩

theorem extends_number (x : α) (n : Numbering α) : n.Extends (n.number x).2 := by
  obtain ⟨i, -, h⟩ | ⟨hx, -, h⟩ := n.number_cases x
  · rw [h]
    exact .refl n
  · refine ⟨h ▸ List.prefix_append _ _, fun hs => ?_⟩
    rw [Single, h]
    refine List.nodup_append.2 ⟨hs, List.nodup_singleton x, ?_⟩
    rintro a ha b hb rfl
    cases List.mem_singleton.1 hb
    exact hx ha

theorem HasRoom.lasts_number (h : n.HasRoom) : (n.number x).2.Lasts := by
  refine Nat.lt_of_le_of_lt ?_ h
  obtain ⟨i, -, he⟩ | ⟨-, -, he⟩ := n.number_cases x
  · rw [he]
    exact Nat.le_succ _
  · rw [he]
    exact Nat.le_of_eq (List.length_append ..)

theorem get?_number (hl : (n.number x).2.Lasts) : (n.number x).2.get? (n.number x).1 = some x := by
  refine (get?_eq_some hl).2 ?_
  obtain ⟨i, hi, h⟩ | ⟨-, hid, h⟩ := n.number_cases x
  · rw [h]
    exact ⟨i, hi, rfl⟩
  · rw [h]
    exact ⟨n.entries.length, List.getElem?_concat_length .., hid⟩

structure Bijective (n : Numbering α) : Prop where
  get?_number : ∀ x ∈ n.entries, n.get? (n.number x).1 = some x ∧ (n.number x).2 = n
  number_get? : ∀ id x, n.get? id = some x → n.number x = (id, n)
  get?_eq_none_iff : ∀ id, n.get? id = none ↔ id ≤ 0 ∨ n.entries.length < id.toInt

theorem Single.number_get? (h : n.Single) (hl : n.Lasts) (hx : n.get? id = some x) :
    n.number x = (id, n) := by
  obtain ⟨i, hi, rfl⟩ := (get?_eq_some hl).1 hx
  obtain ⟨hlt, rfl⟩ := List.getElem?_eq_some_iff.1 hi
  obtain ⟨j, hj, he⟩ | ⟨hnot, -⟩ := n.number_cases n.entries[i]
  · obtain ⟨hjlt, hj⟩ := List.getElem?_eq_some_iff.1 hj
    rw [he, h.getElem_inj_iff.1 hj]
  · exact absurd (List.getElem_mem hlt) hnot

theorem get?_eq_none_iff (hl : n.Lasts) :
    n.get? id = none ↔ id ≤ 0 ∨ n.entries.length < id.toInt := by
  have hlasts : n.entries.length < 0x80000000 := hl
  have hpos : 0 < id ↔ 0 < id.toInt := Int32.lt_iff_toInt_lt
  have hle : id ≤ 0 ↔ id.toInt ≤ 0 := Int32.le_iff_toInt_le
  simp only [get?, hpos, hle]
  split
  · rw [List.getElem?_eq_none_iff]
    omega
  · exact ⟨fun _ => .inl (by omega), fun _ => rfl⟩

theorem Single.bijective (h : n.Single) (hl : n.Lasts) : n.Bijective where
  get?_number x hx := by
    obtain ⟨i, hi⟩ := List.getElem?_of_mem hx
    have hget : n.get? (.ofNat (i + 1)) = some x := (get?_eq_some hl).2 ⟨i, hi, rfl⟩
    rw [h.number_get? hl hget]
    exact ⟨hget, rfl⟩
  number_get? _ _ := h.number_get? hl
  get?_eq_none_iff _ := Numbering.get?_eq_none_iff hl

def after (xs : List α) : Numbering α := xs.foldl (fun n x => (n.number x).2) .empty

theorem after_concat (xs : List α) (x : α) : after (xs ++ [x]) = ((after xs).number x).2 :=
  List.foldl_concat ..

theorem entries_after (xs : List α) : (after xs).entries = xs.eraseDups := by
  induction xs using List.reverseRecOn with
  | nil => rfl
  | append_singleton xs x ih =>
    rw [after_concat, List.eraseDups_append]
    have hmem : x ∈ (after xs).entries ↔ x ∈ xs := by rw [ih, List.mem_eraseDups]
    obtain ⟨i, hi, h⟩ | ⟨hnot, -, h⟩ := (after xs).number_cases x
    · have hx := hmem.1 (List.mem_of_getElem? hi)
      rw [h, ih]
      simp [List.removeAll, hx]
    · have hx := mt hmem.2 hnot
      rw [h, ih]
      simp [List.removeAll, hx, List.eraseDups_cons]

theorem extends_after (xs ys : List α) : (after xs).Extends (after (xs ++ ys)) := by
  induction ys using List.reverseRecOn with
  | nil => rw [List.append_nil]; exact .refl _
  | append_singleton ys y ih =>
    rw [← List.append_assoc, after_concat]
    exact ih.trans (extends_number y _)

structure Numbered (xs : List α) : Prop where
  entries : (after xs).entries = xs.eraseDups
  bijective : (after xs).Bijective
  ordered : ∀ (i : Nat) (x : α), xs.eraseDups[i]? = some x → ((after xs).number x).1.toInt = i + 1
  lasting : ∀ above x below, xs = above ++ x :: below →
    (after xs).number x = (((after above).number x).1, after xs)

theorem numbered {xs : List α} (h : xs.eraseDups.length < 0x80000000) : Numbered xs := by
  have hl : (after xs).Lasts := by rwa [Lasts, entries_after]
  have hs : (after xs).Single := (extends_after [] xs).single List.nodup_nil
  refine ⟨entries_after xs, hs.bijective hl, fun i x hi => ?_, ?_⟩
  · have hlt := (List.getElem?_eq_some_iff.1 hi).1
    rw [← entries_after] at hi
    rw [hs.number_get? hl ((get?_eq_some hl).2 ⟨i, hi, rfl⟩), Int32.toInt_ofNat_of_lt (by omega)]
    rfl
  · rintro above x below rfl
    have he : (after (above ++ [x])).Extends (after (above ++ x :: below)) := by
      have h := extends_after (above ++ [x]) below
      rwa [List.append_assoc] at h
    refine hs.number_get? hl (he.get? hl ?_)
    rw [after_concat] at he ⊢
    exact get?_number (hl.of_extends he)

end BytecodeMachine.Numbering
