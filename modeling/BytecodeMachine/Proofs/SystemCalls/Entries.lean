import BytecodeMachine.Proofs.Identities.Tables

namespace BytecodeMachine

structure ErrorEntry where
  slot : Fin systemCallCount
  code : Int32

abbrev ErrorLog := List ErrorEntry

namespace ErrorLog

def code (l : ErrorLog) (slot : Fin systemCallCount) : Int32 :=
  ((l.find? (·.slot = slot)).map (·.code)).getD 0

def table (l : ErrorLog) : Vector Int32 systemCallCount := .ofFn l.code

theorem code_cons (entry : ErrorEntry) (l : ErrorLog) (slot : Fin systemCallCount) :
    code (entry :: l) slot = if entry.slot = slot then entry.code else l.code slot := by
  by_cases h : entry.slot = slot
  · simp [code, h]
  · simp [code, h]

theorem table_nil : table [] = Vector.replicate systemCallCount 0 := by
  ext k hk
  simp [table, code]

theorem table_cons (entry : ErrorEntry) (l : ErrorLog) :
    table (entry :: l) = l.table.set entry.slot entry.code := by
  ext k hk
  simp only [table, Vector.getElem_ofFn, Vector.getElem_set, code_cons, Fin.ext_iff]

theorem getElem_table (l : ErrorLog) (slot : Fin systemCallCount) : l.table[slot] = l.code slot := by
  simp [table]

end ErrorLog

def IsCallIndex (index : Int32) : Prop := 0 ≤ index.toInt ∧ index.toInt < systemCallCount

instance (index : Int32) : Decidable (IsCallIndex index) := inferInstanceAs (Decidable (_ ∧ _))

theorem IsCallIndex.toNat_lt {index : Int32} (h : IsCallIndex index) :
    index.toInt.toNat < systemCallCount := by
  have := h.1
  have := h.2
  omega

theorem systemCallCount_pos : 0 < systemCallCount := by decide

def errorTarget (index : Int32) : Fin systemCallCount :=
  if h : IsCallIndex index then ⟨index.toInt.toNat, h.toNat_lt⟩ else ⟨0, systemCallCount_pos⟩

theorem errorSlot_eq (index : Int32) :
    ThreadRecord.errorSlot (Machine.errorSlot index) = errorTarget index := by
  have hneg : index < 0 ↔ index.toInt < 0 := Int32.lt_iff_toInt_lt
  unfold ThreadRecord.errorSlot Machine.errorSlot errorTarget
  by_cases hn : index.toInt < 0
  · have hc : ¬IsCallIndex index := fun h => by
      have := h.1
      omega
    rw [dif_neg hc, if_pos (hneg.2 hn), dif_pos (by decide)]
  · rw [if_neg (hneg.not.2 hn)]
    by_cases hl : index.toInt.toNat < systemCallCount
    · rw [dif_pos hl, dif_pos ⟨by omega, by omega⟩]
    · have hc : ¬IsCallIndex index := fun h => by
        have := h.2
        omega
      rw [dif_neg hl, dif_neg hc]

theorem ofIndex?_eq (index : Int32) : SystemCall.ofIndex? index =
    if IsCallIndex index then SystemCall.all[index.toInt.toNat]? else none := by
  have hneg : index < 0 ↔ index.toInt < 0 := Int32.lt_iff_toInt_lt
  unfold SystemCall.ofIndex?
  by_cases hc : IsCallIndex index
  · have := hc.1
    rw [if_pos hc, if_neg (hneg.not.2 (by omega))]
  · rw [if_neg hc]
    split
    · rfl
    · rename_i hn
      have := hneg.not.1 hn
      refine List.getElem?_eq_none ?_
      rw [SystemCall.length_all]
      unfold IsCallIndex at hc
      omega

theorem SystemCall.nodup_all : all.Nodup := by decide

theorem SystemCall.isSome_ofIndex?_iff (index : Int32) :
    (ofIndex? index).isSome ↔ IsCallIndex index := by
  rw [ofIndex?_eq]
  split
  · rename_i hc
    rw [List.getElem?_eq_getElem (by rw [length_all]; exact hc.toNat_lt)]
    exact iff_of_true rfl hc
  · rename_i hc
    exact iff_of_false nofun hc

theorem SystemCall.isCallIndex {index : Int32} {call : SystemCall}
    (h : ofIndex? index = some call) : IsCallIndex index :=
  (isSome_ofIndex?_iff index).1 (by rw [h]; rfl)

theorem SystemCall.index_eq {index : Int32} {call : SystemCall}
    (h : ofIndex? index = some call) : index = .ofNat (all.idxOf call) := by
  have hc := isCallIndex h
  have := hc.1
  rw [ofIndex?_eq, if_pos hc] at h
  obtain ⟨hk, rfl⟩ := List.getElem?_eq_some_iff.1 h
  rw [nodup_all.idxOf_getElem]
  refine Int32.toInt_inj.1 ?_
  rw [Int32.toInt_ofNat_of_lt (Nat.lt_trans hk (by decide))]
  omega

structure SystemRequest where
  index : Int32
  arguments : List Int32

namespace SystemRequest

variable {q : SystemRequest}

def argument (q : SystemRequest) (k : Nat) : Int32 := q.arguments[k]?.getD 0

structure IsOrdinary (q : SystemRequest) : Prop where
  known : IsCallIndex q.index
  notGet : q.index ≠ 1
  notSet : q.index ≠ 2
  notExit : q.index ≠ 11

inductive Records (q : SystemRequest) (old : ErrorLog) : Except Trap Int32 → ErrorLog → Prop
  | unknown (h : ¬IsCallIndex q.index) : Records q old (.ok (-1)) [⟨errorTarget 0, -1⟩]
  | errorGet (h : q.index = 1) :
      Records q old (.ok (old.code (errorTarget (q.argument 0)))) [⟨errorTarget 1, 0⟩]
  | errorSet (h : q.index = 2) :
      Records q old (.ok (old.code (errorTarget (q.argument 0))))
        [⟨errorTarget 2, 0⟩, ⟨errorTarget (q.argument 0), q.argument 1⟩]
  | success (h : q.IsOrdinary) (n : Int32) : Records q old (.ok n) [⟨errorTarget q.index, 0⟩]
  | failure (h : q.IsOrdinary) (code : Int32) (hc : code < 0) :
      Records q old (.ok (-1)) [⟨errorTarget q.index, code⟩]
  | exit (h : q.index = 11) : Records q old (.error .exit) [⟨errorTarget 11, 0⟩]
  | trapped (h : q.IsOrdinary) (trap : Trap) : Records q old (.error trap) []

def Begins (q : SystemRequest) (old new : ErrorLog) : Prop :=
  ∃ outcome more, q.Records old outcome (more ++ new)

theorem begins_nil (q : SystemRequest) (old : ErrorLog) : q.Begins old [] := by
  by_cases hc : IsCallIndex q.index
  · by_cases hget : q.index = 1
    · exact ⟨_, [_], .errorGet hget⟩
    by_cases hset : q.index = 2
    · exact ⟨_, [_, _], .errorSet hset⟩
    by_cases hexit : q.index = 11
    · exact ⟨_, [_], .exit hexit⟩
    · exact ⟨_, [], .trapped ⟨hc, hget, hset, hexit⟩ .exit⟩
  · exact ⟨_, [_], .unknown hc⟩

end SystemRequest

end BytecodeMachine
