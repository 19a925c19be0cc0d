import BytecodeMachine.Engine
import BytecodeMachine.Proofs.Completion
import BytecodeMachine.Proofs.Typing.Storage

namespace BytecodeMachine

namespace ArrayStorage

variable {x y z : ArrayStorage} {start place count : Nat}

structure Moves (start place count : Nat) (x y z : ArrayStorage) : Prop where
  kind : z.kind = y.kind
  length : z.length = y.length
  range : ∀ k < count, z.at? (place + k) = x.at? (start + k)
  rest : ∀ k, k < place ∨ place + count ≤ k → z.at? k = y.at? k

theorem getElem?_splice {α : Type} {xs ys : Array α} (hs : start + count ≤ ys.size)
    (hd : place + count ≤ xs.size) (k : Nat) :
    (splice xs ys start place count)[k]? =
      if place ≤ k ∧ k < place + count then ys[start + (k - place)]? else xs[k]? := by
  have hbefore : (xs.extract 0 place).size = place := by
    rw [Array.size_extract]
    omega
  have hrange : (ys.extract start (start + count)).size = count := by
    rw [Array.size_extract]
    omega
  unfold splice
  rw [Array.getElem?_append, Array.getElem?_append, Array.size_append, hbefore, hrange]
  simp only [Array.getElem?_extract, Nat.min_self]
  by_cases hlow : k < place
  · have hout : ¬(place ≤ k ∧ k < place + count) := by omega
    have hin : k < place + count := by omega
    rw [if_neg hout, if_pos hin, if_pos hlow, if_pos (by omega), Nat.zero_add]
  by_cases hhigh : k < place + count
  · have hin : place ≤ k ∧ k < place + count := by omega
    rw [if_pos hin, if_pos hhigh, if_neg hlow, if_pos (by omega)]
  · have hout : ¬(place ≤ k ∧ k < place + count) := by omega
    rw [if_neg hout, if_neg hhigh, Nat.add_sub_cancel' (by omega)]
    split
    · rfl
    · exact (Array.getElem?_eq_none (by omega)).symm

theorem moves_splice {e : ElementKind} {xs ys : Array e.Elem} (hs : start + count ≤ ys.size)
    (hd : place + count ≤ xs.size) :
    Moves start place count ⟨e, ys⟩ ⟨e, xs⟩ ⟨e, splice xs ys start place count⟩ where
  kind := rfl
  length := size_splice hs hd
  range k hk := by
    simp only [at?]
    rw [getElem?_splice hs hd, if_pos (by omega), Nat.add_sub_cancel_left]
  rest k hk := by
    simp only [at?]
    rw [getElem?_splice hs hd, if_neg (by omega)]

theorem moves_copyWithin (hs : start + count ≤ y.length) (hd : place + count ≤ y.length) :
    Moves start place count y y (y.copyWithin start place count) :=
  moves_splice hs hd

theorem moves_copyFrom (h : y.copyFrom x start place count = .ok z)
    (hs : start + count ≤ x.length) (hd : place + count ≤ y.length) :
    Moves start place count x y z := by
  obtain ⟨hk, rfl⟩ := copyFrom_eq h
  obtain ⟨e, xs⟩ := x
  obtain ⟨e', ys⟩ := y
  cases hk
  exact moves_splice hs hd

theorem moves_nothing (x y : ArrayStorage) (start place : Nat) : Moves start place 0 x y y :=
  ⟨rfl, rfl, fun _ h => absurd h (Nat.not_lt_zero _), fun _ _ => rfl⟩

end ArrayStorage

inductive Body.Later (kept : Prop) : Body → Body → Prop
  | fields {vs ws : Array Value} (h : kept → ws = vs) : Later kept (.fields vs) (.fields ws)
  | array {x y : ArrayStorage} (kind : y.kind = x.kind) (length : y.length = x.length)
      (h : kept → y = x) : Later kept (.array x) (.array y)

theorem Body.Later.refl (kept : Prop) (b : Body) : b.Later kept b := by
  cases b with
  | fields vs => exact .fields fun _ => rfl
  | array x => exact .array rfl rfl fun _ => rfl

theorem Body.Later.trans {kept : Prop} {a b d : Body} (h : a.Later kept b) (h' : b.Later kept d) :
    a.Later kept d := by
  cases h with
  | fields h =>
    cases h' with
    | fields h' => exact .fields fun hk => (h' hk).trans (h hk)
  | array kind length h =>
    cases h' with
    | array kind' length' h' =>
      exact .array (kind'.trans kind) (length'.trans length) fun hk => (h' hk).trans (h hk)

namespace Machine

variable {m m1 m2 m3 : Machine} {kept : ObjectId → Prop} {o : ObjectId} {x : Object}
  {a : ArrayStorage}

def component? (m : Machine) (o : ObjectId) : Option Class :=
  (m.heap.get? o).bind (·.klass.component)

def admits (m : Machine) (k : Class) : Value → Bool
  | .ref (some o) => m.fitsComponent k o
  | _ => true

structure Honours (kept : ObjectId → Prop) (m m' : Machine) : Prop where
  natives : m'.natives = m.natives
  heap : ∀ o x, m.heap.get? o = some x →
    ∃ x', m'.heap.get? o = some x' ∧ x'.klass = x.klass ∧ x.body.Later (kept o) x'.body

theorem Honours.trans (h : m1.Honours kept m2) (h' : m2.Honours kept m3) :
    m1.Honours kept m3 where
  natives := h'.natives.trans h.natives
  heap o x hx := by
    obtain ⟨x2, hx2, hk, hb⟩ := h.heap o x hx
    obtain ⟨x3, hx3, hk', hb'⟩ := h'.heap o x2 hx2
    exact ⟨x3, hx3, hk'.trans hk, hb.trans hb'⟩

theorem honours_of_heap (hn : m2.natives = m1.natives) (hh : m2.heap = m1.heap) :
    m1.Honours kept m2 :=
  ⟨hn, fun o x hx => ⟨x, hh ▸ hx, rfl, .refl (kept o) x.body⟩⟩

theorem storage?_eq_ok_iff :
    m.storage? o = .ok a ↔ ∃ x, m.heap.get? o = some x ∧ x.body = .array a := by
  unfold storage?
  cases m.heap.get? o with
  | none => exact ⟨nofun, nofun⟩
  | some x => cases hb : x.body <;> simp [Object.storage, hb]

theorem storage?_setStorage_self (hx : m.heap.get? o = some x) :
    { m with heap := m.heap.modify o (·.setStorage a) }.storage? o = .ok a := by
  refine storage?_eq_ok_iff.2 ⟨x.setStorage a, ?_, rfl⟩
  rw [Heap.get?_modify, if_pos rfl, hx]
  rfl

theorem storage?_setStorage_of_ne {p : ObjectId} (h : p ≠ o) :
    { m with heap := m.heap.modify p (·.setStorage a) }.storage? o = m.storage? o := by
  rw [storage?, Heap.get?_modify, if_neg h]
  rfl

theorem Honours.storage (h : m1.Honours kept m2) (ha : m1.storage? o = .ok a) :
    ∃ b, m2.storage? o = .ok b ∧ b.kind = a.kind ∧ b.length = a.length ∧ (kept o → b = a) := by
  obtain ⟨x, hx, hb⟩ := storage?_eq_ok_iff.1 ha
  obtain ⟨x', hx', -, hlater⟩ := h.heap o x hx
  rw [hb] at hlater
  generalize hb' : x'.body = b at hlater
  cases hlater with
  | @array _ b kind length hkept =>
    exact ⟨b, storage?_eq_ok_iff.2 ⟨x', hx', hb'⟩, kind, length, hkept⟩

theorem Honours.storage_before (h : m1.Honours kept m2) {b : ArrayStorage}
    (hx : ∃ x, m1.heap.get? o = some x) (hb : m2.storage? o = .ok b) :
    ∃ a, m1.storage? o = .ok a ∧ b.length = a.length ∧ (kept o → b = a) := by
  obtain ⟨x, hx⟩ := hx
  cases ha : x.body with
  | array a =>
    have ha' := storage?_eq_ok_iff.2 ⟨x, hx, ha⟩
    obtain ⟨b', hb', -, hlength, hkept⟩ := h.storage ha'
    cases hb.symm.trans hb'
    exact ⟨a, ha', hlength, hkept⟩
  | fields vs =>
    obtain ⟨x', hx', -, hlater⟩ := h.heap o x hx
    obtain ⟨x'', hx'', hb⟩ := storage?_eq_ok_iff.1 hb
    cases hx'.symm.trans hx''
    rw [ha, hb] at hlater
    cases hlater

theorem Honours.no_storage (h : m1.Honours kept m2) {vs : Array Value}
    (hx : m2.heap.get? o = some x) (hb : x.body = .fields vs) (a : ArrayStorage) :
    m1.storage? o ≠ .ok a := by
  intro ha
  obtain ⟨b, hb', -⟩ := h.storage ha
  obtain ⟨x', hx', hb''⟩ := storage?_eq_ok_iff.1 hb'
  cases hx.symm.trans hx'
  cases hb.symm.trans hb''

theorem Honours.storage_of_kept (h : m1.Honours kept m2) (ha : m1.storage? o = .ok a)
    (ho : kept o) : m2.storage? o = .ok a := by
  obtain ⟨b, hb, -, -, hkept⟩ := h.storage ha
  rw [hb, hkept ho]

theorem Honours.component? (h : m1.Honours kept m2) (hx : m1.heap.get? o = some x) :
    m2.component? o = m1.component? o := by
  obtain ⟨x', hx', hk, -⟩ := h.heap o x hx
  rw [Machine.component?, Machine.component?, hx, hx', Option.bind_some, Option.bind_some, hk]

theorem Honours.admits {k : Class} {v : Value} (h : m1.Honours kept m2)
    (hv : ∀ e, v = .object e → ∃ x, m1.heap.get? e = some x) : m2.admits k v = m1.admits k v := by
  match v with
  | .ref (some e) =>
    obtain ⟨x, hx⟩ := hv e rfl
    obtain ⟨x', hx', hk, -⟩ := h.heap e x hx
    simp only [Machine.admits, fitsComponent, hx, hx', hk]
  | .ref none | .int _ | .long _ | .float _ | .double _ => rfl

end Machine

namespace Machine

variable {m : Machine} {object : Object} {x y z : ArrayStorage} {start place count : Nat}

theorem refs?_eq_none_iff : x.refs? = none ↔ x.kind ≠ .reference := by
  obtain ⟨e, xs⟩ := x
  cases e with
  | reference => exact ⟨nofun, fun h => absurd rfl h⟩
  | _ => exact ⟨nofun, fun _ => rfl⟩

theorem at?_of_refs {refs : List (Option ObjectId)} (h : x.refs? = some refs) (i : Nat) :
    x.at? i = refs[i]?.map .ref := by
  obtain ⟨e, xs⟩ := x
  cases e with
  | reference =>
    cases h
    exact congrArg (Option.map _) Array.getElem?_toList.symm
  | _ => cases h

theorem mem_range_iff {refs : List (Option ObjectId)} {r : Option ObjectId} :
    r ∈ (refs.drop start).take count ↔ ∃ j < count, refs[start + j]? = some r := by
  simp only [List.mem_iff_getElem?, List.getElem?_take, List.getElem?_drop]
  refine exists_congr fun j => ?_
  split
  · exact (and_iff_right ‹_›).symm
  · exact ⟨nofun, fun h => absurd h.1 ‹_›⟩

theorem checkCopied_range {refs : List (Option ObjectId)} (h : x.refs? = some refs) :
    m.checkCopied object ((refs.drop start).take count) = .ok () ↔
      ∃ k, object.klass.component = some k ∧ ∀ j < count,
        ∀ v ∈ x.at? (start + j), m.admits k v = true := by
  simp only [checkCopied_eq_ok_iff, mem_range_iff, at?_of_refs h]
  refine exists_congr fun k => and_congr_right fun _ => ⟨fun h j hj v hv => ?_, ?_⟩
  · obtain ⟨r, hr, rfl⟩ := Option.map_eq_some_iff.1 hv
    cases r with
    | none => rfl
    | some e => exact h e ⟨j, hj, hr⟩
  · rintro h e ⟨j, hj, he⟩
    exact h j hj (.object e) (Option.map_eq_some_iff.2 ⟨_, he, rfl⟩)

theorem condition_of_checkCopied {refs : List (Option ObjectId)} {cause : Cause}
    (h : m.checkCopied object refs = .error cause) : cause.condition = .arrayStore := by
  unfold checkCopied at h
  split at h
  · cases h
    rfl
  · split at h <;> cases h
    rfl

def Admissible (m : Machine) (object : Object) (x : ArrayStorage) (start count : Nat) : Prop :=
  x.kind = .reference → ∃ k, object.klass.component = some k ∧
    ∀ j < count, ∀ v ∈ x.at? (start + j), m.admits k v = true

theorem copied_cases (m : Machine) (object : Object) (x y : ArrayStorage)
    (start place count : Nat) :
    m.Admissible object x start count ∧
        m.copied false object x y start place count = y.copyFrom x start place count ∨
      ¬ m.Admissible object x start count ∧ ∃ cause, cause.condition = .arrayStore ∧
        m.copied false object x y start place count = .error (.raise cause) := by
  rw [copied, if_neg Bool.false_ne_true]
  cases hr : x.refs? with
  | none => exact .inl ⟨fun hk => absurd hk (refs?_eq_none_iff.1 hr), rfl⟩
  | some refs =>
    have hk : x.kind = .reference := by
      by_contra hk
      cases hr.symm.trans (refs?_eq_none_iff.2 hk)
    have hrange : m.checkCopied object ((refs.drop start).take count) = .ok () ↔ _ :=
      checkCopied_range hr
    cases hc : m.checkCopied object ((refs.drop start).take count) with
    | ok _ => exact .inl ⟨fun _ => hrange.1 hc, by simp [hc]⟩
    | error cause =>
      refine .inr ⟨fun h => ?_, cause, condition_of_checkCopied hc, by simp [hc]⟩
      cases hc.symm.trans (hrange.2 (h hk))

theorem copied_error {same : Bool} {trap : Trap}
    (h : m.copied same object x y start place count = .error trap) :
    ∃ cause, trap = .raise cause ∧ cause.condition = .arrayStore := by
  cases same with
  | true => cases h
  | false =>
    rcases copied_cases m object x y start place count with ⟨-, hc⟩ | ⟨-, cause, hcause, hc⟩
    · rw [hc, ArrayStorage.copyFrom] at h
      split at h <;> cases h
      exact ⟨_, rfl, rfl⟩
    · cases hc.symm.trans h
      exact ⟨cause, rfl, hcause⟩

theorem copyFrom_of_copied (h : m.copied false object x y start place count = .ok z) :
    y.copyFrom x start place count = .ok z := by
  rcases copied_cases m object x y start place count with ⟨-, hc⟩ | ⟨-, cause, -, hc⟩
  · rwa [hc] at h
  · cases hc.symm.trans h

theorem copied_ok_iff : (∃ z, m.copied false object x y start place count = .ok z) ↔
    x.kind = y.kind ∧ m.Admissible object x start count := by
  rcases copied_cases m object x y start place count with ⟨ha, hc⟩ | ⟨ha, cause, -, hc⟩
  · rw [hc, and_iff_left ha, ArrayStorage.copyFrom]
    split <;> simp_all
  · simp [hc, ha]

end Machine

structure ArrayCopy where
  source : Option ObjectId
  start : Int32
  dest : Option ObjectId
  place : Int32
  count : Int32

namespace ArrayCopy

open Exec

variable {α : Type} {c : ArrayCopy} {m m' : Machine} {o p : ObjectId} {x y z : ArrayStorage}
  {kept : ObjectId → Prop} {i : Nat} {t : Thread} {s : Scene}

def arguments (c : ArrayCopy) : List Value :=
  [.ref c.source, .int c.start, .ref c.dest, .int c.place, .int c.count]

def Within (c : ArrayCopy) (x y : ArrayStorage) : Prop :=
  0 ≤ c.count.toInt ∧ (0 ≤ c.start.toInt ∧ c.start.toInt + c.count.toInt ≤ x.length) ∧
    0 ≤ c.place.toInt ∧ c.place.toInt + c.count.toInt ≤ y.length

def Allowed (c : ArrayCopy) (m : Machine) (o p : ObjectId) (x y : ArrayStorage) : Prop :=
  c.count = 0 ∨ o = p ∨ x.kind = y.kind ∧ (x.kind = .reference → ∃ k ∈ m.component? p,
    ∀ j < c.count.toInt.toNat, ∀ v ∈ x.at? (c.start.toInt.toNat + j), m.admits k v = true)

instance : Decidable (c.Within x y) := inferInstanceAs (Decidable (_ ∧ _))

instance : Decidable (c.Allowed m o p x y) := inferInstanceAs (Decidable (_ ∨ _))

def verdict (c : ArrayCopy) (m : Machine) : Option Condition :=
  match c.source, c.dest with
  | some o, some p =>
      match m.storage? o, m.storage? p with
      | .ok x, .ok y =>
          if ¬ c.Within x y then some .arrayIndexOutOfBounds
          else if ¬ c.Allowed m o p x y then some .arrayStore
          else none
      | _, _ => some .arrayStore
  | _, _ => some .nullPointer

theorem within_iff : ¬ c.Within x y ↔ (c.count < 0 || !inRange c.start c.count x.length ||
    !inRange c.place c.count y.length) = true := by
  simp only [Within, inRange, Int32.lt_iff_toInt_lt, Int32.toInt_zero, Bool.or_eq_true,
    Bool.not_eq_true', Bool.and_eq_false_imp, decide_eq_true_eq, decide_eq_false_iff_not]
  omega

def Moves (c : ArrayCopy) : ArrayStorage → ArrayStorage → ArrayStorage → Prop :=
  ArrayStorage.Moves c.start.toInt.toNat c.place.toInt.toNat c.count.toInt.toNat

def Writes (c : ArrayCopy) (m m' : Machine) : Prop :=
  ∃ o p x y z, c.source = some o ∧ c.dest = some p ∧ m.storage? o = .ok x ∧
    m.storage? p = .ok y ∧ c.Moves x y z ∧ m'.heap = m.heap.modify p (·.setStorage z)

structure Stands (c : ArrayCopy) (m : Machine) : Prop where
  source : ∀ o, c.source = some o → ∃ x, m.heap.get? o = some x
  dest : ∀ p, c.dest = some p → ∃ x, m.heap.get? p = some x
  elements : ∀ o x j e, c.source = some o → m.storage? o = .ok x → x.at? j = some (.object e) →
    ∃ x, m.heap.get? e = some x

def contract (c : ArrayCopy) (i : Nat) (kept : ObjectId → Prop) (m : Machine) : Contract where
  thread := i
  rely s s' := s.machine.Honours kept s'.machine
  guarantee s s' := s'.machine.heap = s.machine.heap ∨
    c.verdict m = none ∧ c.Writes s.machine s'.machine

def Outcome (c : ArrayCopy) (m : Machine) : Except Trap α → Prop
  | .ok _ => c.verdict m = none
  | .error trap => ∃ cause, trap = .raise cause ∧ c.verdict m = some cause.condition

structure Settled (c : ArrayCopy) (kept : ObjectId → Prop) (m m' : Machine) (r : Except Trap α) :
    Prop where
  outcome : c.Outcome m r
  moved : c.verdict m = none → ∀ o p x y, c.source = some o → c.dest = some p →
    m.storage? o = .ok x → m.storage? p = .ok y → kept p →
      ∃ z, m'.storage? p = .ok z ∧ c.Moves x y z
  rest : ∀ o x, m.storage? o = .ok x → kept o → (c.verdict m = none → c.dest ≠ some o) →
    m'.storage? o = .ok x

theorem Settled.congr {β : Type} {r : Except Trap α} {r' : Except Trap β}
    (h : c.Settled kept m m' r) (hr : c.Outcome m r → c.Outcome m r') : c.Settled kept m m' r' :=
  ⟨hr h.outcome, h.moved, h.rest⟩

theorem meets_read {f : Machine → α} {Q : Post α} (h : m.Honours kept s.machine)
    (hq : ∀ s', m.Honours kept s'.machine → Q (.ok (f s'.machine)) t s') :
    (read f).Meets (c.contract i kept m) t Q s :=
  meets_lift.2 fun s' hr => ⟨.inl rfl, hq s' (h.trans hr)⟩

theorem meets_update {f : Machine → Machine} {Q : Post Unit} (hn : ∀ m, (f m).natives = m.natives)
    (hh : ∀ m, (f m).heap = m.heap) (h : m.Honours kept s.machine)
    (hq : ∀ s', m.Honours kept s'.machine → Q (.ok ()) t s') :
    (update f).Meets (c.contract i kept m) t Q s := by
  refine meets_lift.2 fun s' hr => ⟨.inl (hh s'.machine), hq _ ?_⟩
  exact (h.trans hr).trans (Machine.honours_of_heap (hn s'.machine) (hh s'.machine))

theorem meets_object {Q : Post Object} (ho : ∃ x, m.heap.get? o = some x)
    (h : m.Honours kept s.machine)
    (hq : ∀ x s', m.Honours kept s'.machine → s'.machine.heap.get? o = some x → Q (.ok x) t s') :
    (object o).Meets (c.contract i kept m) t Q s := by
  refine meets_bind.2 (meets_read h fun s' h' => ?_)
  obtain ⟨x, hx⟩ := ho
  obtain ⟨x', hx', -⟩ := h'.heap o x hx
  rw [hx']
  exact hq x' s' h' hx'

theorem verdict_of_arrays (hs : c.source = some o) (hd : c.dest = some p)
    (hx : m.storage? o = .ok x) (hy : m.storage? p = .ok y) :
    c.verdict m = if ¬ c.Within x y then some .arrayIndexOutOfBounds
      else if ¬ c.Allowed m o p x y then some .arrayStore else none := by
  rw [verdict, hs, hd]
  dsimp only
  rw [hx, hy]

theorem verdict_of_no_array (hs : c.source = some o) (hd : c.dest = some p)
    (h : (∀ x, m.storage? o ≠ .ok x) ∨ ∀ y, m.storage? p ≠ .ok y) :
    c.verdict m = some .arrayStore := by
  rw [verdict, hs, hd]
  dsimp only
  split
  · rename_i hx hy
    exact (h.elim (· _ hx) (· _ hy)).elim
  · rfl

theorem settled_of_error {cause : Cause} (h : m.Honours kept m')
    (hv : c.verdict m = some cause.condition) :
    c.Settled kept m m' (.error (.raise cause) : Except Trap α) where
  outcome := ⟨cause, rfl, hv⟩
  moved hn := by simp [hv] at hn
  rest o x hx hkept _ := h.storage_of_kept hx hkept

theorem allowed_iff_copied {object : Object} {x' y' : ArrayStorage} (h : m.Honours kept m')
    (hst : c.Stands m) (hs : c.source = some o) (hd : c.dest = some p)
    (hx : m.storage? o = .ok x) (hx' : o ≠ p → x' = x) (hy' : y'.kind = y.kind)
    (hobject : m'.heap.get? p = some object) (hc : c.count ≠ 0) :
    c.Allowed m o p x y ↔ ∃ z, m'.copied (decide (o = p)) object x' y' c.start.toInt.toNat
      c.place.toInt.toNat c.count.toInt.toNat = .ok z := by
  by_cases hop : o = p
  · refine iff_of_true (.inr (.inl hop)) ?_
    rw [decide_eq_true hop]
    exact ⟨_, rfl⟩
  · obtain ⟨w, hw⟩ := hst.dest p hd
    have hcomponent : object.klass.component = m.component? p := by
      rw [← h.component? hw, Machine.component?, hobject, Option.bind_some]
    have hadmits (k : Class) (j : Nat) (v : Value) (hv : v ∈ x.at? (c.start.toInt.toNat + j)) :
        m'.admits k v = m.admits k v := by
      refine h.admits fun e he => hst.elements o x (c.start.toInt.toNat + j) e hs hx ?_
      rw [← he]
      exact hv
    rw [decide_eq_false hop, Machine.copied_ok_iff, Machine.Admissible, hx' hop, hy', hcomponent,
      Allowed, or_iff_right hc, or_iff_right hop]
    refine and_congr_right fun _ => imp_congr_right fun _ => exists_congr fun k => ?_
    refine and_congr_right fun _ => forall_congr' fun j => forall_congr' fun _ => ?_
    exact forall_congr' fun v => forall_congr' fun hv => by rw [hadmits k j v hv]

theorem within_congr {x' y' : ArrayStorage} (hx : x'.length = x.length)
    (hy : y'.length = y.length) : c.Within x' y' ↔ c.Within x y := by
  rw [Within, Within, hx, hy]

theorem moves_of_copied {object : Object} {x' y' : ArrayStorage} (hin : c.Within x' y')
    (hlen : o = p → x'.length = y'.length)
    (h : m.copied (decide (o = p)) object x' y' c.start.toInt.toNat c.place.toInt.toNat
      c.count.toInt.toNat = .ok z) : c.Moves (if o = p then y' else x') y' z := by
  obtain ⟨hcount, ⟨hstart, hfrom⟩, hplace, hto⟩ := hin
  by_cases hop : o = p
  · have hl := hlen hop
    rw [decide_eq_true hop] at h
    cases h
    rw [if_pos hop]
    exact ArrayStorage.moves_copyWithin (by omega) (by omega)
  · rw [decide_eq_false hop] at h
    rw [if_neg hop]
    exact ArrayStorage.moves_copyFrom (Machine.copyFrom_of_copied h) (by omega) (by omega)

theorem settled_of_nothing (h : m.Honours kept m') (hv : c.verdict m = none) (hc : c.count = 0)
    (a : α) : c.Settled kept m m' (.ok a) where
  outcome := hv
  moved _ o p x y _ _ _ hy hkept := by
    refine ⟨y, h.storage_of_kept hy hkept, ?_⟩
    rw [Moves, hc]
    exact ArrayStorage.moves_nothing x y _ _
  rest o x hx hkept _ := h.storage_of_kept hx hkept

theorem settled_of_write {w : ArrayStorage} (h : m.Honours kept m') (hv : c.verdict m = none)
    (hs : c.source = some o) (hd : c.dest = some p) (hk : o ≠ p → kept o)
    (hw : m'.storage? o = .ok w) (hy : m'.storage? p = .ok y) (hmoves : c.Moves w y z) (a : α) :
    c.Settled kept m { m' with heap := m'.heap.modify p (·.setStorage z) } (.ok a) where
  outcome := hv
  moved _ o' p' x' y' hs' hd' hx' hy' hp := by
    cases hs.symm.trans hs'
    cases hd.symm.trans hd'
    have ho : kept o := by
      by_cases hop : o = p
      · exact hop ▸ hp
      · exact hk hop
    cases hw.symm.trans (h.storage_of_kept hx' ho)
    cases hy.symm.trans (h.storage_of_kept hy' hp)
    obtain ⟨object, hobject, -⟩ := Machine.storage?_eq_ok_iff.1 hy
    exact ⟨z, Machine.storage?_setStorage_self hobject, hmoves⟩
  rest o' a ha ho' hne := by
    have hp : p ≠ o' := fun hp => hne hv (hp ▸ hd)
    exact (Machine.storage?_setStorage_of_ne hp).trans (h.storage_of_kept ha ho')

theorem meets_copyRange {x' : ArrayStorage} {Q : Post (Except Trap Unit)} (hst : c.Stands m)
    (hk : o ≠ p → kept o) (hs : c.source = some o) (hd : c.dest = some p)
    (hx : m.storage? o = .ok x) (hy : m.storage? p = .ok y) (hx' : kept o → x' = x)
    (hlen : x'.length = x.length) (hc : c.count ≠ 0) (hin : c.Within x y)
    (h : m.Honours kept s.machine)
    (hq : ∀ r s', c.Settled kept m s'.machine r → Q (.ok r) t s') :
    (act (·.copyRange (o = p) x' p c.start.toInt.toNat c.place.toInt.toNat
      c.count.toInt.toNat)).Meets (c.contract i kept m) t Q s := by
  refine meets_lift.2 fun s' hr => ?_
  have h' : m.Honours kept s'.machine := h.trans hr
  obtain ⟨w, hw, -, hwlen, hwkept⟩ := h'.storage hx
  obtain ⟨y', hy', hkind, hlength, -⟩ := h'.storage hy
  obtain ⟨object, hobject, hbody⟩ := Machine.storage?_eq_ok_iff.1 hy'
  have hallowed : c.Allowed m o p x y ↔ _ :=
    allowed_iff_copied h' hst hs hd hx (fun hop => hx' (hk hop)) hkind hobject hc
  have hverdict := verdict_of_arrays hs hd hx hy
  rw [if_neg (not_not_intro hin)] at hverdict
  simp only [Machine.copyRange, hobject, Object.storage, hbody]
  cases hz : s'.machine.copied (decide (o = p)) object x' y' c.start.toInt.toNat
      c.place.toInt.toNat c.count.toInt.toNat with
  | error trap =>
    obtain ⟨cause, rfl, hcause⟩ := Machine.copied_error hz
    have hrefused : ¬ c.Allowed m o p x y := fun ha => by
      obtain ⟨z, hz'⟩ := hallowed.1 ha
      cases hz.symm.trans hz'
    rw [if_pos hrefused, ← hcause] at hverdict
    exact ⟨.inl rfl, hq _ _ (settled_of_error h' hverdict)⟩
  | ok z =>
    rw [if_neg (not_not_intro (hallowed.2 ⟨z, hz⟩))] at hverdict
    -- What is read is the source as it is by now, whether or not that is the destination.
    have hnow : (if o = p then y' else x') = w := by
      split
      · rename_i hop
        subst hop
        exact Except.ok.inj (hy'.symm.trans hw)
      · rename_i hop
        rw [hx' (hk hop), hwkept (hk hop)]
    have hmoves := moves_of_copied ((within_congr hlen hlength).2 hin) (fun hop => ?_) hz
    · rw [hnow] at hmoves
      exact ⟨.inr ⟨hverdict, o, p, w, y', z, hs, hd, hw, hy', hmoves, rfl⟩,
        hq _ _ (settled_of_write h' hverdict hs hd hk hw hy' hmoves ())⟩
    · subst hop
      cases hw.symm.trans hy'
      rw [hlen, hwlen]

theorem meets_copyArray (hst : c.Stands m)
    (hk : ∀ o, c.source = some o → c.dest ≠ some o → kept o) (hs : c.source = some o)
    (hd : c.dest = some p) (h : m.Honours kept s.machine) :
    (copyArray o c.start p c.place c.count).Meets (c.contract i kept m) t
      (fun r t' s' => t' = t ∧ c.Settled kept m s'.machine r) s := by
  refine meets_bind.2 (meets_object (hst.source o hs) h fun X s1 h1 hX => ?_)
  rw [after_ok]
  refine meets_bind.2 (meets_object (hst.dest p hd) h1 fun Y s2 h2 hY => ?_)
  rw [after_ok]
  have refused (hno : (∀ x, m.storage? o ≠ .ok x) ∨ ∀ y, m.storage? p ≠ .ok y) :
      (raise .copyOfNonArrays : Exec Unit).Meets (c.contract i kept m) t
        (fun r t' s' => t' = t ∧ c.Settled kept m s'.machine r) s2 :=
    meets_raise.2 ⟨rfl, settled_of_error h2 (verdict_of_no_array hs hd hno)⟩
  cases hx' : X.body with
  | fields vs => exact refused (.inl (h1.no_storage hX hx'))
  | array x' =>
    cases hy' : Y.body with
    | fields vs => exact refused (.inr (h2.no_storage hY hy'))
    | array y' =>
      obtain ⟨x, hx, hxlen, hxkept⟩ := h1.storage_before (hst.source o hs)
        (Machine.storage?_eq_ok_iff.2 ⟨X, hX, hx'⟩)
      obtain ⟨y, hy, hylen, -⟩ := h2.storage_before (hst.dest p hd)
        (Machine.storage?_eq_ok_iff.2 ⟨Y, hY, hy'⟩)
      have hverdict := verdict_of_arrays hs hd hx hy
      dsimp only
      split
      · rename_i hout
        rw [if_pos (mt (within_congr hxlen hylen).2 (within_iff.2 hout))] at hverdict
        exact meets_bind.2 (meets_raise.2 ⟨rfl, settled_of_error h2 hverdict⟩)
      · rename_i hin
        have hin : c.Within x y := by
          rwa [← within_iff, not_not, within_congr hxlen hylen] at hin
        split
        · rename_i hc
          refine meets_bind.2 (meets_copyRange hst ?_ hs hd hx hy hxkept hxlen hc hin h2 ?_)
          · exact fun hop => hk o hs fun hd' => hop (Option.some.inj (hd'.symm.trans hd))
          · intro r s' hr
            rw [after_ok]
            exact meets_ofTrap.2 ⟨rfl, hr⟩
        · rename_i hc
          have hc : c.count = 0 := not_not.1 hc
          rw [if_neg (not_not_intro hin), if_neg (not_not_intro (.inl hc))] at hverdict
          exact meets_pure.2 ⟨rfl, settled_of_nothing h2 hverdict hc ()⟩

def natives (c : ArrayCopy) : List NativeValue :=
  [.ofReference c.source, .int c.start, .ofReference c.dest, .int c.place, .int c.count]

theorem meets_copyArguments (hst : c.Stands m)
    (hk : ∀ o, c.source = some o → c.dest ≠ some o → kept o) (h : m.Honours kept s.machine) :
    (copyArguments c.natives).Meets (c.contract i kept m) t (fun r t' s' =>
      t' = t ∧ (∀ v, r = .ok v → v = .void) ∧ c.Settled kept m s'.machine r) s := by
  have null (hv : c.verdict m = some .nullPointer) :
      (raise (.nullArgument "arraycopy") : Exec NativeValue).Meets (c.contract i kept m) t
        (fun r t' s' => t' = t ∧ (∀ v, r = .ok v → v = .void) ∧ c.Settled kept m s'.machine r) s :=
    meets_raise.2 ⟨rfl, nofun, settled_of_error h hv⟩
  obtain ⟨source, start, dest, place, count⟩ := c
  match source, dest with
  | none, _ => exact null rfl
  | some _, none => exact null rfl
  | some o, some p =>
    change ((copyArray o start p place count) >>= fun _ => pure NativeValue.void).Meets _ t _ s
    refine meets_bind.2 ((meets_copyArray hst hk rfl rfl h).mono fun r t' s' hr => ?_)
    cases r with
    | ok _ => exact ⟨hr.1, fun _ h => (Except.ok.inj h).symm, hr.2.congr id⟩
    | error trap => exact ⟨hr.1, nofun, hr.2.congr id⟩

theorem nativeArguments_eq {f : Method} (hf : f.isStatic = true)
    (ht : f.type = ⟨[.object .object, .int, .object .object, .int, .int], none⟩) :
    nativeArguments f c.arguments = pure c.natives := by
  obtain ⟨source, start, dest, place, count⟩ := c
  unfold nativeArguments
  rw [if_pos hf, ht]
  cases source <;> cases dest <;> rfl

theorem takeNative_void (e : Engine) {f : Method} (h : f.type.result = none) :
    takeNative e f .void = pure none := by
  unfold takeNative
  rw [h]

theorem meets_callNative (e : Engine) {f : Method} (hf : f.isStatic = true)
    (ht : f.type = ⟨[.object .object, .int, .object .object, .int, .int], none⟩)
    (hn : m.natives.get? f.ref.nativeKey = some (.builtin .copyArray)) (hst : c.Stands m)
    (hk : ∀ o, c.source = some o → c.dest ≠ some o → kept o) (h : m.Honours kept s.machine) :
    (callNative e f c.arguments).Meets (c.contract i kept m) t (fun r t' s' =>
      t' = t ∧ (∀ v, r = .ok v → v = none) ∧ c.Settled kept m s'.machine r) s := by
  refine meets_bind.2 (meets_read h fun s1 h1 => ?_)
  rw [after_ok, h1.natives, hn]
  dsimp only
  rw [nativeArguments_eq hf ht, pure_bind]
  refine meets_bind.2 (meets_update (fun _ => rfl) (fun _ => rfl) h1 fun s2 h2 => ?_)
  rw [after_ok]
  refine meets_bind.2 ((meets_copyArguments hst hk h2).mono fun r t' s' hr => ?_)
  cases r with
  | error trap => exact ⟨hr.1, nofun, hr.2.2.congr id⟩
  | ok v =>
    cases hr.2.1 v rfl
    rw [after_ok, takeNative_void e (congrArg MethodType.result ht)]
    exact ⟨hr.1, fun _ h => (Except.ok.inj h).symm, hr.2.2.congr id⟩

theorem isPrompt_copyArray (o p : ObjectId) (start place count : Int32) :
    (copyArray o start p place count).IsPrompt := by
  refine (IsPrompt.object o).bind fun X => (IsPrompt.object p).bind fun Y => ?_
  split
  · refine .guard (.raise _) fun _ => ?_
    dsimp only
    split
    · exact .bind (.act _) .ofTrap
    · exact .pure ()
  · exact .raise _

theorem isPrompt_copyArguments (c : ArrayCopy) : (copyArguments c.natives).IsPrompt := by
  obtain ⟨source, start, dest, place, count⟩ := c
  match source, dest with
  | none, _ => exact .raise (.nullArgument "arraycopy")
  | some _, none => exact .raise (.nullArgument "arraycopy")
  | some o, some p =>
    have h : (copyArray o start p place count >>= fun _ => pure NativeValue.void).IsPrompt :=
      .bind (isPrompt_copyArray o p start place count) fun _ => .pure _
    exact h

theorem isPrompt_takeNative (e : Engine) {f : Method} (h : f.type.result = none)
    (v : NativeValue) : (takeNative e f v).IsPrompt := by
  unfold takeNative
  rw [h]
  split
  · exact .pure none
  · exact .bind (.act _) fun _ => .fail _
  · cases ‹none = some _›

theorem ends_callNative (e : Engine) {f : Method} (hf : f.isStatic = true)
    (ht : f.type = ⟨[.object .object, .int, .object .object, .int, .int], none⟩)
    (hn : s.machine.natives.get? f.ref.nativeKey = some (.builtin .copyArray)) :
    (callNative e f c.arguments).Ends i t (fun _ _ _ => True) s := by
  refine ends_bind.2 (ends_read.2 ?_)
  rw [after_ok, hn]
  dsimp only
  rw [nativeArguments_eq hf ht, pure_bind]
  refine ends_bind.2 (ends_update.2 ?_)
  have hrest : (copyArguments c.natives >>= takeNative e f).IsPrompt :=
    (isPrompt_copyArguments c).bind (isPrompt_takeNative e (congrArg MethodType.result ht))
  exact (hrest t).ends.mono fun _ _ _ => trivial

theorem moves_a_range_at_once (e : Engine) {f : Method} (hf : f.isStatic = true)
    (ht : f.type = ⟨[.object .object, .int, .object .object, .int, .int], none⟩)
    (hn : s.machine.natives.get? f.ref.nativeKey = some (.builtin .copyArray))
    (hst : c.Stands s.machine) (hk : ∀ o, c.source = some o → c.dest ≠ some o → kept o) :
    (callNative e f c.arguments).Meets (c.contract i kept s.machine) t (fun r t' s' =>
      t' = t ∧ (∀ v, r = .ok v → v = none) ∧ c.Settled kept s.machine s'.machine r) s ∧
    (callNative e f c.arguments).Ends i t (fun r t' s' =>
      t' = t ∧ (∀ v, r = .ok v → v = none) ∧
        c.Settled (fun _ => True) s.machine s'.machine r) s := by
  have here (kept : ObjectId → Prop) (s : Scene) : s.machine.Honours kept s.machine :=
    Machine.honours_of_heap rfl rfl
  refine ⟨meets_callNative e hf ht hn hst hk (here kept s), ?_⟩
  have alone := meets_callNative (i := i) (t := t) e hf ht hn hst (fun _ _ _ => trivial)
    (here (fun _ => True) s)
  exact Prog.Ends.of_meets (here fun _ => True) alone (ends_callNative e hf ht hn)

def arrayCopying : Method :=
  ⟨.system, ⟨"arraycopy"⟩, ⟨[.object .object, .int, .object .object, .int, .int], none⟩,
    CoreLibrary.openStaticNative, none⟩

def machineOfInts (ns : List Int32) : Machine :=
  { Machine.create [] .standard .standard .sound .sound (.ofVerbosity none) with
    heap := ⟨#[.ofStorage (.start .object none [] none .plain .regular) (.ofInts ns)]⟩ }

-- The range that is read and the one that is written overlap.
theorem moves_a_range_at_once_of_overlap :
    let c : ArrayCopy := ⟨some ⟨0⟩, 0, some ⟨0⟩, 1, 3⟩
    let s : Scene := ⟨machineOfInts [1, 2, 3, 4, 5], []⟩
    c.verdict s.machine = none ∧
      (callNative (.bounded 1) arrayCopying c.arguments).Ends 1 (.start 1 "main") (fun r t' s' =>
        t' = .start 1 "main" ∧ (∀ v, r = .ok v → v = none) ∧
          c.Settled (fun _ => True) s.machine s'.machine r) s := by
  intro c s
  have hst : c.Stands s.machine := by
    refine ⟨?_, ?_, ?_⟩
    · rintro _ ⟨⟩
      exact ⟨_, rfl⟩
    · rintro _ ⟨⟩
      exact ⟨_, rfl⟩
    · rintro _ _ j o ⟨⟩ ⟨⟩ h
      obtain ⟨n, -, hn⟩ := Option.map_eq_some_iff.1 h
      cases hn
  have hk (o : ObjectId) (_ : c.source = some o) (_ : c.dest ≠ some o) : True := trivial
  exact ⟨by decide, (moves_a_range_at_once _ rfl rfl (by decide) hst hk).2⟩

end ArrayCopy

end BytecodeMachine
