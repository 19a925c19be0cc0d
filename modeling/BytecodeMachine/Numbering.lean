import BytecodeMachine.Entries

/-!
Small positive numbers for things, given out in the order in which the things are first asked for. Numbers
are found by their things and things by their numbers; the table carries that the two ways agree.
-/

namespace BytecodeMachine

structure Numbering (α : Type) [DecidableEq α] where
  ids : Entries α Int32
  entries : List α
  get?_ids : ∀ x, ids.get? x = (entries.idxOf? x).map fun i => .ofNat (i + 1)

namespace Numbering

variable {α : Type} [DecidableEq α]

def empty : Numbering α := ⟨[], [], fun _ => rfl⟩

theorem get?_ids_eq_none_iff {n : Numbering α} {x : α} : n.ids.get? x = none ↔ x ∉ n.entries := by
  rw [n.get?_ids, Option.map_eq_none_iff, List.idxOf?_eq_none_iff]

theorem idxOf?_concat {entries : List α} {x : α} (h : x ∉ entries) (y : α) :
    (entries ++ [x]).idxOf? y = if x = y then some entries.length else entries.idxOf? y := by
  have hnone : entries.idxOf? x = none := List.idxOf?_eq_none_iff.2 h
  unfold List.idxOf? at hnone ⊢
  rw [List.findIdx?_append]
  by_cases hxy : x = y
  · subst hxy
    simp [hnone]
  · simp [hxy]

def add (x : α) (n : Numbering α) (h : n.ids.get? x = none) : Numbering α where
  ids := n.ids.put x (.ofNat (n.entries.length + 1))
  entries := n.entries ++ [x]
  get?_ids y := by
    rw [Entries.get?_put, n.get?_ids, idxOf?_concat (get?_ids_eq_none_iff.1 h)]
    split <;> rfl

def number (x : α) (n : Numbering α) : Int32 × Numbering α :=
  match h : n.ids.get? x with
  | some id => (id, n)
  | none => (.ofNat (n.entries.length + 1), n.add x h)

theorem number_of_idxOf? {n : Numbering α} {x : α} {i : Nat} (h : n.entries.idxOf? x = some i) :
    n.number x = (.ofNat (i + 1), n) := by
  have hid : n.ids.get? x = some (.ofNat (i + 1)) := by rw [n.get?_ids, h, Option.map_some]
  unfold number
  split
  · rename_i id h
    rw [hid] at h
    cases h
    rfl
  · rename_i h
    rw [hid] at h
    cases h

theorem number_of_not_mem {n : Numbering α} {x : α} (h : x ∉ n.entries) :
    (n.number x).1 = .ofNat (n.entries.length + 1) ∧ (n.number x).2.entries = n.entries ++ [x] := by
  unfold number
  split
  · rename_i id hid
    rw [get?_ids_eq_none_iff.2 h] at hid
    cases hid
  · exact ⟨rfl, rfl⟩

def get? (n : Numbering α) (id : Int32) : Option α :=
  if 0 < id then n.entries[id.toInt.toNat - 1]? else none

end Numbering

end BytecodeMachine
