import BytecodeMachine.Proofs.CallStack

namespace BytecodeMachine

variable {i : Nat} {t : Thread} {s : Scene} {e : Engine} {o o' : Option ObjectId} {p p' : Int32}

namespace Machine

variable {m m' : Machine}

def PointsTo (m : Machine) (p : Int32) : Option ObjectId → Prop
  | none => p = 0
  | some o => m.pointers.get? p = some o

theorem PointsTo.get? (h : m.PointsTo p o) : m.pointers.get? p = o := by
  cases o with
  | none =>
    rw [show p = 0 from h]
    rfl
  | some o => exact h

theorem PointsTo.extend (h : m.PointsTo p o) (hm : m.KeepsNumbers m') (hl : m'.pointers.Lasts) :
    m'.PointsTo p o := by
  cases o with
  | none => exact h
  | some o => exact hm.pointers.get? hl h

theorem PointsTo.eq_zero_iff (h : m.PointsTo p o) : p = 0 ↔ o = none := by
  cases o with
  | none => exact ⟨fun _ => rfl, fun _ => h⟩
  | some o =>
    refine ⟨?_, nofun⟩
    rintro rfl
    exact absurd (Numbering.pos_of_get? h) (by decide)

theorem PointsTo.eq_iff (hs : m.pointers.Single) (hl : m.pointers.Lasts) (h : m.PointsTo p o)
    (h' : m.PointsTo p' o') : p = p' ↔ o = o' := by
  cases o with
  | none =>
    rw [show p = 0 from h, eq_comm, h'.eq_zero_iff, eq_comm]
  | some o =>
    cases o' with
    | none =>
      rw [show p' = 0 from h', h.eq_zero_iff]
    | some o' =>
      rw [hs.get?_inj hl h h', Option.some.injEq]

theorem PointsTo.pointer_eq (hs : m.pointers.Single) (hl : m.pointers.Lasts) (h : m.PointsTo p o) :
    m.pointer o = (p, m) := by
  cases o with
  | none => rw [show p = 0 from h]; rfl
  | some o => rw [pointer, hs.number_get? hl h]

theorem pointsTo_pointer (hl : (m.pointer o).2.pointers.Lasts) :
    (m.pointer o).2.PointsTo (m.pointer o).1 o := by
  cases o with
  | none => rfl
  | some o => exact Numbering.get?_number hl

theorem lasts_pointer (h : m.pointers.HasRoom) : (m.pointer o).2.pointers.Lasts := by
  cases o with
  | none => exact Nat.lt_of_succ_lt h
  | some o => exact h.lasts_number

theorem sustains_pointer (o : Option ObjectId) (m : Machine) : m.Sustains (m.pointer o).2 := by
  refine .of_eq ?_ ?_ (keepsNumbers_pointer o m)
  all_goals cases o <;> rfl

end Machine

inductive PointerInquiry where
  | pointer (o : Option ObjectId)
  | object (p : Int32)
  | other (q : Inquiry)

inductive PointerAnswer where
  | value (v : NativeValue)
  | other

namespace Exec

def exchange (e : Engine) : PointerInquiry → Exec PointerAnswer
  | .pointer o => do pure (.value (← intrinsic e .objectToPointer [.ofReference o]))
  | .object p => do pure (.value (← intrinsic e .pointerToObject [.int p]))
  | .other q => do
      let _ ← ask e q
      pure .other

theorem objectToPointer_eq (e : Engine) (o : Option ObjectId) :
    intrinsic e .objectToPointer [.ofReference o] = (do pure (.int (← act (·.pointer o)))) := by
  cases o <;> rfl

theorem pointerToObject_eq (e : Engine) (p : Int32) : intrinsic e .pointerToObject [.int p] =
    (do pure (.ofReference (← read (·.pointers.get? p)))) := rfl

def Exchanges : PointerInquiry → Except Trap PointerAnswer → Machine → Prop
  | .pointer o, r, m => ∃ p, r = .ok (.value (.int p)) ∧ (o = none → p = 0) ∧
      (m.pointers.Lasts → m.PointsTo p o)
  | .object p, r, m => ∃ o, r = .ok (.value (.ofReference o)) ∧
      (o ≠ none → m.pointers.Lasts → m.PointsTo p o)
  | .other _, _, _ => True

theorem exchanges_sustains (q : PointerInquiry) (r : Except Trap PointerAnswer) (m m' : Machine)
    (hm : m.Sustains m') (h : Exchanges q r m) : Exchanges q r m' := by
  cases q with
  | pointer o =>
    obtain ⟨p, hr, hnull, hp⟩ := h
    exact ⟨p, hr, hnull, fun hl => (hp (hl.of_extends hm.numbers.pointers)).extend hm.numbers hl⟩
  | object p =>
    obtain ⟨o, hr, hp⟩ := h
    exact ⟨o, hr, fun ho hl => (hp ho (hl.of_extends hm.numbers.pointers)).extend hm.numbers hl⟩
  | other q => trivial

theorem meets_objectToPointer (o : Option ObjectId) :
    (intrinsic e .objectToPointer [.ofReference o]).Meets (.along Machine.Sustains i) t
      (fun r _ s' => ∃ m, s.machine.Sustains m ∧ r = .ok (.int (m.pointer o).1) ∧
        s'.machine = (m.pointer o).2) s := by
  rw [objectToPointer_eq]
  refine meets_bind.2 (meets_lift.2 fun s1 h1 => ⟨Machine.sustains_pointer o s1.machine, ?_⟩)
  exact ⟨s1.machine, h1, rfl, rfl⟩

theorem meets_pointerToObject (p : Int32) :
    (intrinsic e .pointerToObject [.int p]).Meets (.along Machine.Sustains i) t
      (fun r _ s' => s.machine.Sustains s'.machine ∧
        r = .ok (.ofReference (s'.machine.pointers.get? p))) s := by
  rw [pointerToObject_eq]
  refine meets_bind.2 (meets_lift.2 fun s1 h1 => ⟨Machine.upkept_sustains.refl _, ?_⟩)
  exact ⟨h1, rfl⟩

theorem meets_exchange (he : e.Woven) (hs : s.machine.Orderly) (q : PointerInquiry) :
    (exchange e q).Meets (.along Machine.Sustains t.id) t
      (fun r _ s' => Exchanges q r s'.machine) s := by
  cases q with
  | pointer o =>
    refine meets_bind.2 ((meets_objectToPointer o).mono ?_)
    rintro _ _ s1 ⟨m, -, rfl, hm⟩
    refine ⟨_, rfl, ?_, fun hl => ?_⟩
    · rintro rfl
      rfl
    · rw [hm] at hl ⊢
      exact Machine.pointsTo_pointer hl
  | object p =>
    refine meets_bind.2 ((meets_pointerToObject p).mono ?_)
    rintro _ _ s1 ⟨-, rfl⟩
    refine ⟨_, rfl, fun ho _ => ?_⟩
    cases hget : s1.machine.pointers.get? p with
    | none => exact absurd hget ho
    | some o => exact hget
  | other q => exact meets_ask_bind he hs q (fun _ _ => trivial) fun _ _ _ => trivial

theorem gives_objectToPointer (o : Option ObjectId) :
    (intrinsic e .objectToPointer [.ofReference o]).Gives i t
      (fun v m => v = .int (s.machine.pointer o).1 ∧ m = (s.machine.pointer o).2) s := by
  rw [objectToPointer_eq]
  refine gives_act.bind fun p s1 h => gives_pure ?_
  obtain ⟨rfl, h⟩ := Prod.ext_iff.1 h
  exact ⟨rfl, h⟩

end Exec

structure Thread.Exchanges (e : Engine) (i : Nat) (t : Thread) (s : Scene) : Prop where
  pointer : ∀ o, s.machine.pointers.HasRoom →
    (Exec.intrinsic e .objectToPointer [.ofReference o]).Gives i t (fun v m => ∃ p, v = .int p ∧
      m.PointsTo p o ∧ s.machine.pointers.Extends m.pointers) s
  again : ∀ p o, s.machine.PointsTo p o → s.machine.pointers.Lasts →
    (Exec.intrinsic e .objectToPointer [.ofReference o]).Gives i t
      (fun v m => v = .int p ∧ m = s.machine) s
  object : ∀ p o, s.machine.PointsTo p o →
    (Exec.intrinsic e .pointerToObject [.int p]).Gives i t
      (fun v m => v = .ofReference o ∧ m = s.machine) s
  absent : ∀ p : Int32, s.machine.pointers.Lasts →
    p ≤ 0 ∨ s.machine.pointers.entries.length < p.toInt →
    (Exec.intrinsic e .pointerToObject [.int p]).Gives i t (fun v m => v = .null ∧ m = s.machine) s
  againAmongOthers : ∀ p o, s.machine.PointsTo p o →
    (Exec.intrinsic e .objectToPointer [.ofReference o]).Meets (.along Machine.Sustains t.id) t
      (fun r _ s' => s'.machine.pointers.Lasts → r = .ok (.int p)) s
  objectAmongOthers : ∀ p o, s.machine.PointsTo p o →
    (Exec.intrinsic e .pointerToObject [.int p]).Meets (.along Machine.Sustains t.id) t
      (fun r _ s' => s'.machine.pointers.Lasts → r = .ok (.ofReference o)) s

theorem Thread.exchanges (hs : s.machine.pointers.Single) (e : Engine) (i : Nat) (t : Thread) :
    t.Exchanges e i s where
  pointer o hroom := (Exec.gives_objectToPointer o).mono fun v m ⟨hv, hm⟩ => by
    rw [hm]
    exact ⟨_, hv, Machine.pointsTo_pointer (Machine.lasts_pointer hroom),
      (Machine.keepsNumbers_pointer o s.machine).pointers⟩
  again p o h hl := (Exec.gives_objectToPointer o).mono fun v m hv => by
    rwa [h.pointer_eq hs hl] at hv
  object p o h := Exec.gives_read.bind fun found s1 ⟨hfound, h1⟩ => Exec.gives_pure (by
    rw [hfound, h.get?]
    exact ⟨rfl, h1⟩)
  absent p hl hp := Exec.gives_read.bind fun found s1 ⟨hfound, h1⟩ => Exec.gives_pure (by
    rw [hfound, (Numbering.get?_eq_none_iff hl).2 hp]
    exact ⟨rfl, h1⟩)
  againAmongOthers p o h := (Exec.meets_objectToPointer o).mono fun r _ s' ⟨m, hm, hr, hs'⟩ hl => by
    have hkept := (Machine.keepsNumbers_pointer o m).pointers
    rw [hs'] at hl
    have hlm := hl.of_extends hkept
    rw [hr, (h.extend hm.numbers hlm).pointer_eq (hm.numbers.pointers.single hs) hlm]
  objectAmongOthers p o h := (Exec.meets_pointerToObject p).mono fun r _ s' ⟨hs', hr⟩ hl => by
    rw [hr, (h.extend hs'.numbers hl).get?]

structure Exchanged (replies : List (Reply PointerInquiry PointerAnswer)) (m : Machine) : Prop where
  pointer : ∀ r ∈ replies, ∀ o, r.call = .pointer o → ∃ p, r.outcome = .ok (.value (.int p)) ∧
    (o = none → p = 0) ∧ (m.pointers.Lasts → m.PointsTo p o)
  object : ∀ r ∈ replies, ∀ p, r.call = .object p →
    ∃ o, r.outcome = .ok (.value (.ofReference o)) ∧
      (o ≠ none → m.pointers.Lasts → m.PointsTo p o)
  unique : m.pointers.Lasts → ∀ p p' o o', m.PointsTo p o → m.PointsTo p' o' → (p = p' ↔ o = o')
  positive : ∀ p o, m.PointsTo p (some o) → 0 < p

theorem Callers.Along.exchanged {c : Callers PointerInquiry PointerAnswer}
    (h : c.Along Machine.Sustains Exec.Exchanges s) (hs : s.machine.pointers.Single) :
    Exchanged c.replies s.machine where
  pointer r hr o hcall := by
    have hr := h.replies r hr
    rwa [hcall] at hr
  object r hr p hcall := by
    have hr := h.replies r hr
    rwa [hcall] at hr
  unique hl _ _ _ _ hp hp' := hp.eq_iff hs hl hp'
  positive _ _ := Numbering.pos_of_get?

theorem Engine.pointers_stand_for_objects (bound : Nat) (libraries : List Library)
    (natives : NativeTable) (settings : Settings) (stdout stderr : Pipe) (journal : Journal)
    {c : Callers PointerInquiry PointerAnswer} {s : Scene}
    (hr : Callers.Run (Exec.exchange (bounded bound)) Machine.Sustains
      (.idle, .start libraries natives settings stdout stderr journal) (c, s)) :
    (∀ (α : Type) [DecidableEq α] (xs : List α), xs.eraseDups.length < 0x80000000 →
      Numbering.Numbered xs) ∧
    (s.machine.pointers.Lasts → s.machine.pointers.Bijective) ∧
    (s.machine.strings.Lasts → s.machine.strings.Bijective) ∧
    (∀ c' s', Callers.Run (Exec.exchange (bounded bound)) Machine.Sustains (c, s) (c', s') →
      s.machine.KeepsNumbers s'.machine) ∧
    Exchanged c.replies s.machine ∧
    ∀ (e : Engine) (t : Thread) (i : Nat), t.Exchanges e i s := by
  have run {c c' : Callers PointerInquiry PointerAnswer} {s s' : Scene}
      (hs : s.machine.Orderly) (h : c.Along Machine.Sustains Exec.Exchanges s)
      (hr : Callers.Run (Exec.exchange (bounded bound)) Machine.Sustains (c, s) (c', s')) :=
    h.run Machine.upkept_sustains Exec.exchanges_sustains
      (fun _ _ h ho => Machine.Orderly.sustains ho h) (fun _ _ h => h)
      (fun q t s hs => Exec.meets_exchange (woven_bounded bound) hs q) hs hr
  have horderly := Scene.orderly_start libraries natives settings stdout stderr journal
  obtain ⟨halong, hs⟩ := run horderly Callers.along_idle hr
  have hpointers := hs.numbers.pointers.single List.nodup_nil
  have hstrings := hs.numbers.strings.single List.nodup_nil
  exact ⟨fun α _ xs => Numbering.numbered, hpointers.bijective, hstrings.bijective,
    fun c' s' hr' => (run (horderly.sustains hs) halong hr').2.numbers,
    halong.exchanged hpointers, fun e t i => t.exchanges hpointers e i⟩

theorem Engine.pointers_stand_for_objects_of_string :
    ∃ (c : Callers PointerInquiry PointerAnswer) (s : Scene) (o : ObjectId),
      Callers.Run (Exec.exchange (bounded 8)) Machine.Sustains
        (.idle, .start [] .standard .standard .sound .sound (.ofVerbosity none)) (c, s) ∧
      c.replies = [⟨1, .pointer (some o), 0, .ok (.value (.int 1))⟩] ∧
      s.machine.pointers.Bijective ∧
      (Exec.intrinsic (bounded 8) .pointerToObject [.int 1]).Gives 1 (.start 1 "main")
        (fun v _ => v = .object o) s := by
  let s0 : Scene := .start [] .standard .standard .sound .sound (.ofVerbosity none)
  let made := s0.machine.alloc (Object.instanceOf CoreLibrary.stringRecord) 0
  have hmade : s0.machine.Sustains made.2 :=
    Machine.upkept_sustains.leaves (Machine.leaves_alloc _ _ _)
  let t : Thread := .start 1 "main"
  have hasked : (Exec.exchange (bounded 8) (.pointer (some made.1))).Gives t.id t
      (fun a m => a = .value (.int 1) ∧ m.pointers.Lasts) (s0.become made.2) :=
    ⟨rfl, _, rfl, rfl, (by decide : 1 < 0x80000000)⟩
  obtain ⟨_, _, s1, ⟨-, _, rfl, rfl, hl⟩, hrun⟩ :=
    Callers.run_of_ends Machine.Sustains (c := .idle) rfl hasked
  have hr := Relation.ReflTransGen.head (.outside hmade) hrun
  obtain ⟨-, hbijective, -, -, hexchanged, hcalls⟩ :=
    pointers_stand_for_objects 8 [] .standard .standard .sound .sound (.ofVerbosity none) hr
  obtain ⟨p, hp, -, hstands⟩ := hexchanged.pointer _ (List.mem_singleton.2 rfl) _ rfl
  cases hp
  refine ⟨_, s1, made.1, hr, rfl, hbijective hl, ?_⟩
  exact ((hcalls (bounded 8) t 1).object 1 _ (hstands hl)).mono fun v m h => h.1

end BytecodeMachine
