import BytecodeMachine.Bridge.CoreFunctions
import BytecodeMachine.Proofs.Bridge.Making
import BytecodeMachine.Proofs.CallStack.Telling
import BytecodeMachine.Proofs.SystemCalls.Entries

namespace BytecodeMachine

variable {i : Nat} {t : Thread} {s : Scene} {e : Engine} {depth item index : Int32}
  {text : String} {arguments : List Int32}

def Machine.RecordsError (thread : Nat) (index code : Int32) (m m' : Machine) : Prop :=
  m'.errors? thread = (m.errors? thread).map (·.set (errorTarget index) code)

theorem Machine.recordsError_setError {m m' : Machine} (thread : Nat) (index code : Int32)
    (h : m'.threads = m.threads) :
    m.RecordsError thread index code (m'.setError thread index code).2 := by
  have herrors : m'.errors? thread = m.errors? thread := by simp only [errors?, record?, h]
  simp only [RecordsError, errors?_setError, if_true, errorSlot_eq, herrors]

namespace SystemCall

def given : Except CallError Int32 → Int32
  | .ok n => n
  | .error _ => -1

def code : Except CallError Int32 → Int32
  | .ok _ => 0
  | .error err => err.code

end SystemCall

namespace Exec

open SystemCall

def handBack (index : Int32) (r : Except CallError Int32) : Exec Int32 := do
  let _ ← setError index (code r)
  pure (given r)

theorem systemCall_eq (call : SystemCall) (h : ofIndex? index = some call) :
    systemCall e index arguments = (do
      note (.systemCall index.toInt.toNat arguments)
      handBack index (← runCall e call arguments)) := by
  simp only [systemCall, h]
  congr 1
  funext _
  congr 1
  funext r
  cases r <;> rfl

theorem gives_handBack (r : Except CallError Int32) :
    (handBack index r).Gives i t
      (fun n m => n = given r ∧ m = (s.machine.setError t.id index (code r)).2) s :=
  ⟨rfl, _, rfl, rfl, rfl⟩

theorem gives_systemCall (call : SystemCall) {P : Except CallError Int32 → Machine → Prop}
    (h : ofIndex? index = some call)
    (hrun : ∀ s', s.machine.Prepares t.id s'.machine →
      (runCall e call arguments).Gives i t P s') :
    (systemCall e index arguments).Gives i t (fun n m => ∃ r m', P r m' ∧ n = given r ∧
      m = (m'.setError t.id index (code r)).2) s := by
  rw [systemCall_eq call h]
  refine (gives_note _).bind fun _ s1 h1 => ?_
  refine (hrun s1 (by rw [h1]; exact Machine.prepares_note _ _)).bind fun r s2 h2 => ?_
  exact (gives_handBack r).mono fun n m hm => ⟨r, s2.machine, h2, hm.1, hm.2⟩

theorem on_get_bind {α : Type} (f : Thread → Exec α) : (get >>= f).on t = (f t).on t := rfl

theorem stackItem_of_standsAt {f : Frame} {a : Activation} (h : t.StandsAt depth f a) :
    (stackItem depth item).on t = (act (·.frameItem f a item)).on t := by
  obtain ⟨hpos, hget⟩ := Thread.standsAt_iff.1 h
  have hneg : ¬depth < 0 := by
    rw [Int32.lt_iff_toInt_lt]
    exact Int.not_lt.2 hpos
  simp only [stackItem, if_neg hneg]
  refine (on_get_bind _).trans ?_
  rw [hget]

theorem stackItem_of_none (h : ∀ f a, ¬t.StandsAt depth f a) : (stackItem depth item).on t =
    (pure (.error .outOfRange) : Exec (Except CallError Int32)).on t := by
  unfold stackItem
  split
  · rfl
  · rename_i hneg
    rw [Int32.lt_iff_toInt_lt] at hneg
    refine (on_get_bind _).trans ?_
    cases hget : t.activations[depth.toInt.toNat]? with
    | none => rfl
    | some x => exact absurd (Thread.standsAt_iff.2 ⟨Int.not_lt.1 hneg, hget⟩) (h x.1 x.2)

theorem gives_stackItem (depth item : Int32) :
    (stackItem depth item).Gives i t (fun r m =>
      t.Asked depth item s.machine.strings r m.strings ∧ m.threads = s.machine.threads) s := by
  unfold Gives Turns Ends
  by_cases h : ∃ f a, t.StandsAt depth f a
  · obtain ⟨f, a, h⟩ := h
    rw [stackItem_of_standsAt h]
    exact ⟨rfl, _, rfl, t.asked_frameItem h s.machine, Machine.threads_frameItem f a item _⟩
  · simp only [not_exists] at h
    rw [stackItem_of_none h]
    exact ⟨rfl, _, rfl, t.asked_of_none h, rfl⟩

theorem gives_systemCall_item (depth item : Int32) :
    (systemCall e 20 [depth, item]).Gives i t (fun n m => ∃ r, n = given r ∧
      t.Asked depth item s.machine.strings r m.strings ∧
      s.machine.RecordsError t.id 20 (code r) m) s := by
  refine (gives_systemCall .stackItem (P := fun r m =>
    t.Asked depth item s.machine.strings r m.strings ∧ m.threads = s.machine.threads) rfl
    fun s1 h1 => ?_).mono ?_
  · rw [← h1.strings, ← h1.threads]
    exact gives_stackItem depth item
  · rintro n m ⟨r, m', ⟨hasked, hthreads⟩, hn, rfl⟩
    exact ⟨r, hn, hasked, Machine.recordsError_setError _ _ _ hthreads⟩

theorem gives_told (h : t.Tells depth item text) (hroom : s.machine.strings.HasRoom) :
    (systemCall e 20 [depth, item]).Gives i t (fun id m => 0 < id ∧
      m.strings.get? id = some text ∧ s.machine.strings.Extends m.strings ∧
      s.machine.RecordsError t.id 20 0 m) s := by
  refine (gives_systemCall_item depth item).mono fun id m ⟨r, hid, hasked, herror⟩ => ?_
  generalize m.strings = strings at hasked ⊢
  cases hasked with
  | told h' =>
    cases h.unique h'
    have hget := Numbering.get?_number (hroom.lasts_number (x := text))
    rw [hid]
    exact ⟨Numbering.pos_of_get? hget, hget, Numbering.extends_number _ _, herror⟩
  | shown h' => exact absurd h' h.not_shows
  | refused h' => exact absurd h (h' text)

theorem gives_shown {n : Int32} (h : t.Shows depth item n) :
    (systemCall e 20 [depth, item]).Gives i t (fun k m => k = n ∧
      m.strings = s.machine.strings ∧ s.machine.RecordsError t.id 20 0 m) s := by
  refine (gives_systemCall_item depth item).mono fun k m ⟨r, hk, hasked, herror⟩ => ?_
  generalize m.strings = strings at hasked ⊢
  cases hasked with
  | told h' => exact absurd h h'.not_shows
  | shown h' => exact ⟨hk.trans (h'.unique h), rfl, herror⟩
  | refused _ h' => exact absurd h (h' n)

theorem gives_refused (h : t.Lacks depth item) :
    (systemCall e 20 [depth, item]).Gives i t (fun n m => n = -1 ∧
      m.strings = s.machine.strings ∧
      s.machine.RecordsError t.id 20 CallError.outOfRange.code m) s := by
  refine (gives_systemCall_item depth item).mono fun n m ⟨r, hn, hasked, herror⟩ => ?_
  generalize m.strings = strings at hasked ⊢
  cases hasked with
  | told h' => exact absurd h' h.not_tells
  | shown h' => exact absurd h' h.not_shows
  | refused => exact ⟨hn, rfl, herror⟩

theorem gives_item_iff (h : t.Lacks depth item ∨ ∃ text, t.Tells depth item text)
    (hroom : s.machine.strings.HasRoom) :
    (systemCall e 20 [depth, item]).Gives i t (fun id _ => id ≠ -1) s ↔
      ∃ text, t.Tells depth item text := by
  constructor
  · intro hid
    refine h.resolve_left fun hlacks => ?_
    obtain ⟨id, m, hne, heq, -⟩ := hid.exists_and (gives_refused hlacks)
    exact hne heq
  · rintro ⟨text, ht⟩
    refine (gives_told ht hroom).mono fun id m h => ?_
    rintro rfl
    exact absurd h.1 (by decide)

theorem gives_systemCall_height : (systemCall e 19 []).Gives i t
    (fun n _ => n = .ofNat t.height) s := by
  refine (gives_systemCall .stackHeight (P := fun r _ => r = .ok (.ofNat t.height)) rfl
    fun s1 _ => ?_).mono ?_
  · refine gives_get.bind fun u s2 h2 => gives_pure ?_
    rw [h2.1, Thread.length_activations]
  · rintro n m ⟨r, m', rfl, rfl, -⟩
    rfl

theorem gives_loadString {n : Nat} {id : Int32} (hs : s.machine.Serves t.id)
    (hid : s.machine.strings.get? id = some text) (hroom : s.machine.pointers.HasRoom) :
    (loadString (.bounded (n + 8)) id).Gives i t (fun r m => ∃ p o, r = .ok p ∧
      m.pointers.get? p = some o ∧ m.stringValue o = .ok text) s := by
  refine gives_read.bind fun found s1 h1 => ?_
  obtain ⟨rfl, h1⟩ := h1
  rw [hid]
  refine (gives_newString (h1 ▸ hs) text).bind fun o s2 h2 => gives_act.bind fun p s3 h3 => ?_
  have hp : p = (s2.machine.pointer (some o)).1 := congrArg Prod.fst h3
  have hm : s3.machine = (s2.machine.pointer (some o)).2 := congrArg Prod.snd h3
  rw [h1] at h2
  refine gives_pure ⟨p, o, rfl, ?_, ?_⟩
  all_goals rw [hm]
  · rw [hp]
    exact Numbering.get?_number (Numbering.HasRoom.lasts_number (h2.1.pointers ▸ hroom))
  · exact h2.2

theorem gives_pointerToObject {p : Int32} {o : ObjectId} (h : s.machine.pointers.get? p = some o) :
    (intrinsic e .pointerToObject [.int p]).Gives i t
      (fun v m => v = .object o ∧ m = s.machine) s := by
  change (read (·.pointers.get? p) >>= fun found => pure (NativeValue.ofReference found)).Gives i t _ s
  refine gives_read.bind fun found s1 h1 => gives_pure ⟨?_, h1.2⟩
  rw [h1.1, h]
  rfl

theorem gives_loadedObject {n : Nat} {id : Int32} (hs : s.machine.Serves t.id)
    (hid : s.machine.strings.get? id = some text) (hroom : s.machine.pointers.HasRoom) :
    Gives (do
      let p ← systemCall (.bounded (n + 8)) 17 [id]
      intrinsic (.bounded (n + 8)) .pointerToObject [.int p]) i t
      (fun v m => ∃ o, v = .object o ∧ m.stringValue o = .ok text) s := by
  have hcall : (systemCall (.bounded (n + 8)) 17 [id]).Gives i t _ s :=
    gives_systemCall .loadString rfl fun s1 h1 => gives_loadString (n := n)
      (hs.continue h1.toContinues) (h1.strings ▸ hid) (h1.pointers ▸ hroom)
  refine hcall.bind fun p s1 ⟨r, m, ⟨q, o, hr, hq, ho⟩, hp, h1⟩ => ?_
  subst hr
  have hget : s1.machine.pointers.get? p = some o := by
    rw [h1, hp]
    exact hq
  refine (gives_pointerToObject hget).mono fun v m' ⟨hv, hm⟩ => ⟨o, hv, ?_⟩
  rw [hm, h1]
  exact ho

end Exec

end BytecodeMachine
