import BytecodeMachine.Proofs.CallStack.Asking
import BytecodeMachine.Proofs.Identities.Canonical
import BytecodeMachine.Proofs.Upkeep

namespace BytecodeMachine

variable {i : Nat} {t : Thread} {s : Scene} {depth item id : Int32}

namespace Machine

variable {m m' m1 m2 m3 : Machine}

structure Sustains (m m' : Machine) : Prop where
  libraries : m'.libraries = m.libraries
  loaded : ClassTable.Loaded m.libraries m.classes m'.classes
  numbers : m.KeepsNumbers m'

theorem Sustains.of_eq (libraries : m'.libraries = m.libraries) (classes : m'.classes = m.classes)
    (numbers : m.KeepsNumbers m') : m.Sustains m' :=
  ⟨libraries, classes ▸ .refl, numbers⟩

theorem upkept_sustains : Upkept Sustains where
  leaves h := ⟨h.libraries, h.loaded, h.numbers⟩
  trans h h' := ⟨h'.libraries.trans h.libraries, h.loaded.trans (h.libraries ▸ h'.loaded),
    h.numbers.trans h'.numbers⟩
  libraries h := h.libraries
  loaded h := h.loaded
  enroll _ _ := .of_eq rfl rfl ⟨.refl _, .refl _⟩
  keep _ _ _ := .of_eq rfl rfl ⟨.refl _, .refl _⟩
  report _ _ _ _ := .of_eq rfl rfl ⟨.refl _, .refl _⟩

theorem sustains_frameItem (f : Frame) (a : Activation) (item : Int32) (m : Machine) :
    m.Sustains (m.frameItem f a item).2 := by
  have text (x : String) : m.Sustains (m.stringId x).2 :=
    .of_eq rfl rfl (keepsNumbers_stringId x m)
  unfold frameItem
  dsimp only
  repeat' split
  all_goals first | exact text _ | exact upkept_sustains.refl m

theorem Orderly.sustains (h : m.Orderly) (hs : m.Sustains m') : m'.Orderly :=
  ⟨hs.libraries ▸ h.libraries, hs.libraries ▸ hs.loaded.closed h.closed⟩

end Machine

inductive Thread.Heard (t : Thread) (depth item : Int32) (strings : Numbering String) : Int32 → Prop
  | told {id : Int32} {text : String} (h : t.Tells depth item text)
      (hid : strings.Lasts → strings.get? id = some text) : Heard t depth item strings id
  | shown {n : Int32} (h : t.Shows depth item n) : Heard t depth item strings n
  | refused (ht : ∀ text, ¬t.Tells depth item text) (hs : ∀ n, ¬t.Shows depth item n) :
      Heard t depth item strings (-1)

section Heard

variable {strings strings' : Numbering String} {text : String}

theorem Thread.Heard.extend (h : t.Heard depth item strings id) (hs : strings.Extends strings') :
    t.Heard depth item strings' id := by
  cases h with
  | told h hid => exact .told h fun hl => hs.get? hl (hid (hl.of_extends hs))
  | shown h => exact .shown h
  | refused ht hs => exact .refused ht hs

theorem Thread.Heard.get? (h : t.Heard depth item strings id) (ht : t.Tells depth item text)
    (hl : strings.Lasts) : strings.get? id = some text := by
  cases h with
  | told ht' hid => exact ht.unique ht' ▸ hid hl
  | shown hs => exact absurd hs ht.not_shows
  | refused hnone => exact absurd ht (hnone text)

theorem Thread.Asked.heard {r : Except CallError Int32} (h : t.Asked depth item strings r strings') :
    t.Heard depth item strings' (SystemCall.given r) := by
  cases h with
  | told h => exact .told h Numbering.get?_number
  | shown h => exact .shown h
  | refused ht hs => exact .refused ht hs

end Heard

inductive StackInquiry where
  | item (depth item : Int32)
  | other (q : Inquiry)

inductive StackAnswer where
  | item (t : Thread) (id : Int32)
  | other

namespace Exec

def inquire (e : Engine) : StackInquiry → Exec StackAnswer
  | .item depth item => do
      let t ← get
      pure (.item t (← systemCall e 20 [depth, item]))
  | .other q => do
      let _ ← ask e q
      pure .other

def Answered : StackInquiry → Except Trap StackAnswer → Machine → Prop
  | .item depth item, r, m => ∃ t id, r = .ok (.item t id) ∧ t.Heard depth item m.strings id
  | .other _, _, _ => True

theorem answered_sustains (q : StackInquiry) (r : Except Trap StackAnswer) (m m' : Machine)
    (hm : m.Sustains m') (h : Answered q r m) : Answered q r m' := by
  cases q with
  | item depth item =>
    obtain ⟨t, id, hr, hid⟩ := h
    exact ⟨t, id, hr, hid.extend hm.numbers.strings⟩
  | other q => trivial

theorem meets_stackItem (depth item : Int32) :
    (stackItem depth item).Meets (.along Machine.Sustains i) t (fun x t' s' => t' = t ∧
      ∃ r, x = .ok r ∧ t.Heard depth item s'.machine.strings (SystemCall.given r)) s := by
  unfold Meets
  by_cases h : ∃ f a, t.StandsAt depth f a
  · obtain ⟨f, a, h⟩ := h
    rw [stackItem_of_standsAt h]
    intro s1 _
    exact ⟨Machine.sustains_frameItem f a item s1.machine, rfl, _, rfl,
      (t.asked_frameItem h s1.machine).heard⟩
  · simp only [not_exists] at h
    rw [stackItem_of_none h]
    exact ⟨rfl, _, rfl, (t.asked_of_none h).heard⟩

theorem meets_handBack {index : Int32} (r : Except CallError Int32) :
    (handBack index r).Meets (.along Machine.Sustains i) t (fun x t' s' => t' = t ∧
      x = .ok (SystemCall.given r) ∧ s.machine.Sustains s'.machine) s := by
  intro s1 h1
  have hset := Machine.upkept_sustains.report t.id index (SystemCall.code r) s1.machine
  exact ⟨hset, rfl, rfl, Machine.upkept_sustains.trans h1 hset⟩

theorem meets_inquire_item {e : Engine} (depth item : Int32) :
    (inquire e (.item depth item)).Meets (.along Machine.Sustains i) t
      (fun r _ s' => Answered (.item depth item) r s'.machine) s := by
  refine meets_bind.2 (meets_get.2 ?_)
  rw [after_ok]
  refine meets_bind.2 ?_
  rw [systemCall_eq .stackItem rfl]
  refine meets_bind.2 fun s1 _ => ⟨?_, ?_⟩
  · exact Machine.upkept_sustains.leaves (Machine.leaves_pass (.noted (.systemCall _ _)) s1.machine)
  · refine meets_bind.2 ((meets_stackItem depth item).mono ?_)
    rintro _ _ s2 ⟨rfl, r, rfl, hr⟩
    refine (meets_handBack r).mono ?_
    rintro _ _ s3 ⟨rfl, rfl, h3⟩
    exact ⟨_, _, rfl, hr.extend h3.numbers.strings⟩

theorem meets_ask_bind {α : Type} {e : Engine} {a : α} {Q : Post α} (he : e.Woven)
    (hs : s.machine.Orderly) (q : Inquiry) (hok : ∀ t' s', Q (.ok a) t' s')
    (herror : ∀ trap t' s', Q (.error trap) t' s') :
    (ask e q >>= fun _ => pure a).Meets (.along Machine.Sustains t.id) t Q s := by
  refine meets_bind.2 (((woven_ask he q).meets_along Machine.upkept_sustains
    ⟨rfl, rfl, hs.closed⟩).mono fun r t' s' _ => ?_)
  cases r with
  | ok _ => exact hok t' s'
  | error trap => exact herror trap t' s'

theorem meets_inquire {e : Engine} (he : e.Woven) (hs : s.machine.Orderly) (q : StackInquiry) :
    (inquire e q).Meets (.along Machine.Sustains t.id) t (fun r _ s' => Answered q r s'.machine) s := by
  cases q with
  | item depth item => exact meets_inquire_item depth item
  | other q => exact meets_ask_bind he hs q (fun _ _ => trivial) fun _ _ _ => trivial

end Exec

structure Introspected (replies : List (Reply StackInquiry StackAnswer)) (m : Machine) : Prop where
  heard : ∀ r ∈ replies, ∀ depth item, r.call = .item depth item →
    ∃ t id, r.outcome = .ok (.item t id) ∧ t.Heard depth item m.strings id
  numbered : ∀ r ∈ replies, ∀ r' ∈ replies, ∀ depth item depth' item', r.call = .item depth item →
    r'.call = .item depth' item' → ∀ t t' id id' text text', r.outcome = .ok (.item t id) →
    r'.outcome = .ok (.item t' id') → t.Tells depth item text → t'.Tells depth' item' text' →
    m.strings.Lasts → (id = id' ↔ text = text')

theorem Callers.Along.introspected {c : Callers StackInquiry StackAnswer}
    (h : c.Along Machine.Sustains Exec.Answered s) (hs : s.machine.strings.Single) :
    Introspected c.replies s.machine := by
  have heard {r : Reply StackInquiry StackAnswer} (hr : r ∈ c.replies) {depth item : Int32}
      (hcall : r.call = .item depth item) :
      ∃ t id, r.outcome = .ok (.item t id) ∧ t.Heard depth item s.machine.strings id := by
    have hr := h.replies r hr
    rwa [hcall] at hr
  have known {r : Reply StackInquiry StackAnswer} (hr : r ∈ c.replies) {depth item : Int32}
      (hcall : r.call = .item depth item) {t : Thread} {id : Int32} {text : String}
      (ho : r.outcome = .ok (.item t id)) (ht : t.Tells depth item text)
      (hl : s.machine.strings.Lasts) : s.machine.strings.get? id = some text := by
    obtain ⟨u, n, hu, hn⟩ := heard hr hcall
    rw [ho] at hu
    cases hu
    exact hn.get? ht hl
  refine ⟨fun r hr depth item hcall => heard hr hcall, ?_⟩
  intro r hr r' hr' depth item depth' item' hcall hcall' t t' id id' text text' ho ho' ht ht' hl
  exact hs.get?_inj hl (known hr hcall ho ht hl) (known hr' hcall' ho' ht' hl)

structure Thread.Inspects (e : Engine) (i : Nat) (t : Thread) (s : Scene) : Prop where
  height : t.height < 0x80000000 →
    (Exec.systemCall e 19 []).Gives i t (fun n _ => n.toInt = t.height) s
  told : ∀ depth item text, t.Tells depth item text → s.machine.strings.HasRoom →
    (Exec.systemCall e 20 [depth, item]).Gives i t (fun id m => 0 < id ∧
      m.strings.get? id = some text ∧ s.machine.strings.Extends m.strings ∧
      s.machine.RecordsError t.id 20 0 m) s
  shown : ∀ depth item n, t.Shows depth item n →
    (Exec.systemCall e 20 [depth, item]).Gives i t (fun k m => k = n ∧
      m.strings = s.machine.strings ∧ s.machine.RecordsError t.id 20 0 m) s
  refused : ∀ depth item, t.Lacks depth item →
    (Exec.systemCall e 20 [depth, item]).Gives i t (fun n m => n = -1 ∧
      m.strings = s.machine.strings ∧
      s.machine.RecordsError t.id 20 CallError.outOfRange.code m) s
  succeeds : ∀ depth item, item = 0 ∨ item = 1 ∨ item = 2 → s.machine.strings.HasRoom →
    ((Exec.systemCall e 20 [depth, item]).Gives i t (fun id _ => id ≠ -1) s ↔
      0 ≤ depth.toInt ∧ depth.toInt < t.height)
  sourced : ∀ depth, s.machine.strings.HasRoom →
    ((Exec.systemCall e 20 [depth, 3]).Gives i t (fun id _ => id ≠ -1) s ↔
      ∃ f a, t.StandsAt depth f a ∧ a.klass.source.isSome = true)
  loaded : s.machine.shouldTerminate t.id = false → s.machine.Free t.id → ∀ id text,
    s.machine.strings.get? id = some text → s.machine.pointers.HasRoom →
    Exec.Gives (do
      let p ← Exec.systemCall e 17 [id]
      Exec.intrinsic e .pointerToObject [.int p]) i t
      (fun v m => ∃ o, v = .object o ∧ m.stringValue o = .ok text) s

theorem Thread.inspects (h : s.machine.Orderly) (i k : Nat) (t : Thread) :
    t.Inspects (.bounded (k + 8)) i s where
  height hlt := Exec.gives_systemCall_height.mono fun n _ hn => by
    rw [hn, Int32.toInt_ofNat_of_lt hlt]
  told _ _ _ := Exec.gives_told
  shown _ _ _ := Exec.gives_shown
  refused _ _ := Exec.gives_refused
  succeeds depth item hi hroom := by
    rw [← Thread.exists_tells hi]
    refine Exec.gives_item_iff ?_ hroom
    rw [Thread.exists_tells hi]
    exact (Decidable.em _).symm.imp_left .inl
  sourced depth hroom := by
    rw [← Thread.exists_tells_source]
    refine Exec.gives_item_iff ?_ hroom
    by_cases hs : ∃ f a, t.StandsAt depth f a ∧ a.klass.source.isSome = true
    · exact .inr (Thread.exists_tells_source.2 hs)
    · refine .inl (.inr (.inr ⟨rfl, fun f a hf => ?_⟩))
      cases hsource : a.klass.source with
      | none => rfl
      | some file => exact absurd ⟨f, a, hf, hsource ▸ rfl⟩ hs
  loaded halive hfree _ _ hid hroom :=
    Exec.gives_loadedObject ⟨h.libraries, h.closed, halive, hfree⟩ hid hroom

theorem Engine.call_stacks_are_told (bound : Nat) (libraries : List Library)
    (natives : NativeTable) (settings : Settings) (stdout stderr : Pipe) (journal : Journal)
    {c : Callers StackInquiry StackAnswer} {s : Scene}
    (hr : Callers.Run (Exec.inquire (bounded bound)) Machine.Sustains
      (.idle, .start libraries natives settings stdout stderr journal) (c, s)) :
    Introspected c.replies s.machine ∧
    ∀ (t : Thread) (i k : Nat), t.Inspects (bounded (k + 8)) i s := by
  have horderly := Scene.orderly_start libraries natives settings stdout stderr journal
  obtain ⟨halong, hs⟩ := Callers.along_idle.run Machine.upkept_sustains Exec.answered_sustains
    (fun _ _ h ho => Machine.Orderly.sustains ho h) (fun _ _ h => h)
    (fun q t s hs => Exec.meets_inquire (woven_bounded bound) hs q) horderly hr
  refine ⟨halong.introspected (hs.numbers.strings.single List.nodup_nil), fun t i k => ?_⟩
  exact t.inspects (horderly.sustains hs) i k

theorem Engine.call_stacks_are_told_of_constructor :
    let f : Frame := { Frame.blank with
      activation := some ⟨CoreLibrary.stringRecord, CoreLibrary.stringConstructor⟩ }
    let t : Thread := { Thread.start 1 "main" with frames := [.blank, f, .blank] }
    ∃ (c : Callers StackInquiry StackAnswer) (s : Scene),
      Callers.Run (Exec.inquire (bounded 8)) Machine.Sustains
        (.idle, .start [] .standard .standard .sound .sound (.ofVerbosity none)) (c, s) ∧
      c.replies = [⟨1, .item 0 0, 0, .ok (.item t 1)⟩] ∧
      Introspected c.replies s.machine ∧
      Exec.Gives (do
        let p ← Exec.systemCall (bounded 8) 17 [1]
        Exec.intrinsic (bounded 8) .pointerToObject [.int p]) 1 t
        (fun v m => ∃ o, v = .object o ∧ m.stringValue o = .ok "java/lang/String") s := by
  intro f t
  let s0 : Scene := .start [] .standard .standard .sound .sound (.ofVerbosity none)
  have hasked : (Exec.inquire (bounded 8) (.item 0 0)).Gives t.id t (fun a m => a = .item t 1 ∧
      m.strings.get? 1 = some "java/lang/String" ∧ m.lock = none ∧ m.threads = [] ∧
      m.pointers = .empty) s0 :=
    ⟨rfl, _, rfl, rfl, rfl, rfl, rfl, rfl⟩
  obtain ⟨_, _, s1, ⟨-, _, rfl, rfl, hid, hlock, hthreads, hpointers⟩, hr⟩ :=
    Callers.run_of_ends Machine.Sustains (c := .idle) rfl hasked
  have h := call_stacks_are_told 8 [] .standard .standard .sound .sound (.ofVerbosity none) hr
  have halive : s1.machine.shouldTerminate t.id = false := by
    rw [Machine.shouldTerminate_of_threads (m := s0.machine) hthreads]
    rfl
  have hfree : s1.machine.Free t.id := fun l hl => by
    rw [hlock] at hl
    cases hl
  have hroom : s1.machine.pointers.HasRoom := by
    rw [hpointers]
    exact (by decide : 0 + 1 < 0x80000000)
  exact ⟨_, s1, hr, rfl, h.1, (h.2 t 1 0).loaded halive hfree 1 _ hid hroom⟩

end BytecodeMachine
