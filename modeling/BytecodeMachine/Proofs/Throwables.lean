import BytecodeMachine.Proofs.Bridge.StringArrays
import BytecodeMachine.Proofs.Identities
import BytecodeMachine.Proofs.Throwables.Classes

namespace BytecodeMachine

open CoreLibrary

variable {i k n d limit : Nat} {t v : Thread} {s : Scene} {f : Frame} {rest : Frames}
  {o p : ObjectId} {c : Class} {m : Method}

def handingFrame (n : ClassName) (c : Class) (o p : ObjectId) : List Value → Nat → Frame :=
  constructorFrame (belowRecord n c) (handingConstructor n c.name) o p []

theorem enter_handingConstructor (n : ClassName) (c : Class) (o p : ObjectId) :
    Frame.enter (belowRecord n c) (handingConstructor n c.name) [.object o, .object p] =
      .ok (handingFrame n c o p [] 0) :=
  enter_constructor _ (m := handingConstructor n c.name) (T := .string) rfl rfl rfl rfl o p

namespace Exec

-- From the constructor of any class the message gets into the slot. The run of the one above is that of a
-- shorter chain with one more frame to come back to, hence the induction with the rest of the run at hand.
theorem turns_runMessage {R : Unit → Machine → Prop} {x : Object} {w : Value}
    (h : IsThrowable d c) (hm : TakesMessage c m)
    (he : Frame.enter c m [.object o, .object p] = .ok f) (hs : s.machine.Serves t.id)
    (hf : t.frames = f :: rest) (hl : limit ≤ rest.length) (ho : s.machine.heap.get? o = some x)
    (hx : x.klass.isAssignable throwableRecord = true) (hw : x.field 0 = .ok w)
    (hnext : ∀ s', s.machine.Writes t.id (s.machine.heap.modify o (·.setField 0 (.object p)))
      s'.machine → ((Engine.bounded n).run limit).Turns i (t.holding rest) v R s') :
    ((Engine.bounded (n + (7 + 4 * d))).run limit).Turns i t v R s := by
  induction h generalizing m f t s rest n with
  | root =>
    cases takesMessage_root.declared.symm.trans hm.declared
    cases (enter_keepingConstructor throwableRecord rfl o p).symm.trans he
    exact turns_runKeeping keeps_message hs hf hl ho hx hw hnext
  | @under d a c hc _ ih =>
    cases (takesMessage_below a c).declared.symm.trans hm.declared
    cases (enter_handingConstructor a c o p).symm.trans he
    obtain ⟨m', hm'⟩ := hc.exists_takesMessage
    obtain ⟨g, hg⟩ := hm'.exists_enter o p
    have hcost : n + (7 + 4 * (d + 1)) = n + 1 + (7 + 4 * d) + 1 + 1 + 1 := by omega
    rw [hcost]
    refine turns_runPrepared hs hf hl rfl rfl rfl (fun s1 _ => turns_loadThis rfl) fun s1 h1 => ?_
    refine turns_runPrepared (hs.continue h1.toContinues) rfl hl rfl rfl rfl
      (fun s2 _ => turns_loadArgument rfl) fun s2 h2 => ?_
    replace h2 := h1.trans h2
    have hpop : (FrameM.popMany (m'.type.parameters.length + 1)).run.run
        (handingFrame a c o p [.object p, .object o] 3) =
          (.ok [.object o, .object p], handingFrame a c o p [] 3) := by
      rw [hm'.type]
      rfl
    have hvisible : c.innermost.isPublic = true := by rw [hc.innermost, hc.isPublic]
    refine turns_runPrepared (u := t.holding (g :: handingFrame a c o p [] 3 :: rest))
      (hs.continue h2.toContinues) rfl hl rfl rfl rfl (fun s3 h3 => ?_) fun s3 h3 => ?_
    · exact turns_invokeConstructor h3 rfl hc.provided hvisible hm'.lookupMethod? hm'.owner hm'.name
        hm'.access hm'.code hpop hg
    replace h3 := h2.trans h3
    refine ih (t := t.holding (g :: handingFrame a c o p [] 3 :: rest)) hm' hg
      (hs.continue h3.toContinues) rfl (Nat.le_succ_of_le hl)
      (h3.heap ▸ ho) fun s4 h4 => ?_
    rw [h3.heap] at h4
    replace h4 := h3.writes.trans h4
    exact turns_runReturn (hs.continue h4.toContinues) rfl hl rfl rfl rfl rfl
      fun s5 h5 => hnext s5 (h4.prepare h5)

theorem gives_invokeMessage {x : Object} {w : Value} (h : IsThrowable d c) (hd : d ≤ 4)
    (hm : TakesMessage c m) (hs : s.machine.Serves t.id) (ho : s.machine.heap.get? o = some x)
    (hx : x.klass.isAssignable throwableRecord = true) (hw : x.field 0 = .ok w) :
    (invokeMethod (.bounded (k + 24)) c m [.object o, .object p]).Gives i t
      (fun _ m => s.machine.Writes t.id (s.machine.heap.modify o (·.setField 0 (.object p))) m) s := by
  obtain ⟨-, hnative, habstract⟩ := m.isOpen hm.access
  obtain ⟨g, hg⟩ := hm.exists_enter o p
  obtain ⟨n, hn⟩ : ∃ n, k + 24 = n + 1 + (7 + 4 * d) := ⟨k + 16 - 4 * d, by omega⟩
  refine gives_invokeConstructor hnative habstract hm.code hg fun s1 h1 => ?_
  rw [hn]
  refine turns_runMessage h hm hg (hs.continue h1.toContinues) rfl (Nat.le_refl _) (h1.heap ▸ ho) hx hw
    fun s2 h2 => (turns_run_within ?_).mono fun _ m h => ?_
  · simp [Thread.isWithin_iff, Thread.depth]
  · rw [h1.heap] at h2
    exact h ▸ h1.writes.trans h2

end Exec

theorem Object.field_setField {x : Object} {a : Nat} {u w : Value} (h : x.field a = .ok u) :
    (x.setField a w).field a = .ok w := by
  obtain ⟨c, values | _, _⟩ := x
  · have ha : a < values.size := by
      by_contra hn
      simp [Object.field, Array.getElem?_eq_none (Nat.not_lt.1 hn)] at h
    simp [Object.setField, Object.field, ha]
  · cases h

theorem Object.not_isText_throwable (h : IsThrowable d c) : ¬ Machine.IsText (.instanceOf c) := by
  rintro (hn | ⟨b, units, hb, -⟩)
  · exact h.ne_string hn
  · cases hb

namespace Machine

theorem throwableMessage?_of_message {m : Machine} {x : Object} {text : String}
    (h : IsThrowable d x.klass) (ho : m.heap.get? o = some x) (hp : x.field 0 = .ok (.object p))
    (ht : m.stringValue p = .ok text) : m.throwableMessage? o = some text := by
  have hm : m.throwableMessage? o = (m.stringValue p).toOption := by
    simp only [throwableMessage?, ho, h.lookupField?_message, messageField, bind, Except.bind,
      Option.bind, ne_eq, not_true_eq_false, if_false, hp]
    rfl
  rw [hm, ht]
  rfl

structure Throws (n : ClassName) (message : String) (m : Machine) (o : ObjectId) (m' : Machine) :
    Prop where
  fresh : m.heap.get? o = none
  object : ∃ x, m'.heap.get? o = some x ∧ x.klass.name = n ∧ ClassTable.Loads m.libraries n x.klass
  message : m'.throwableMessage? o = some message
  others : m.heap.Extends m'.heap

end Machine

theorem Exec.gives_newThrowable (h : IsThrowable d c) (hd : d ≤ 4) (hs : s.machine.Serves t.id)
    (message : String) : (newThrowable (.bounded (k + 24)) c.name message).Gives i t
      (s.machine.Throws c.name message) s := by
  obtain ⟨n, hn⟩ : ∃ n, k + 24 = n + 3 + d := ⟨k + 21 - d, by omega⟩
  have hup : SetsUp (.bounded (k + 24)) c := hn ▸ setsUp_throwable h n
  obtain ⟨m, hm⟩ := h.exists_takesMessage
  have hfield : (Object.instanceOf c).field 0 = .ok .null := by
    simp [Object.instanceOf, h.layout, Object.field]
    rfl
  refine (gives_loadClass (hs.load h.provided)).bind fun a s1 ⟨ha, h1⟩ => ?_
  rw [ha]
  refine (hup i t s1 (hs.continue h1.toContinues)).bind fun _ s2 h2 => ?_
  replace h2 := h1.trans h2
  simp only [hm.declared]
  refine (gives_newObject c).bind fun o s3 ⟨h3, hfresh, ho⟩ => ?_
  rw [h2.heap] at hfresh
  replace h3 := h2.adds.trans h3
  refine (gives_newString (n := k + 16) (hs.continue h3.toContinues) message).bind
    fun p s4 ⟨h4, hp⟩ => ?_
  replace ho := h4.heap o _ ho
  replace h4 := h3.trans h4
  refine (gives_invokeMessage h hd hm (hs.continue h4.toContinues) ho h.isAssignable hfield).bind
    fun _ s5 h5 => gives_pure ?_
  have ho5 : s5.machine.heap.get? o = some ((Object.instanceOf c).setField 0 (.object p)) := by
    rw [h5.heap]
    exact Heap.get?_modify_self _ ho
  have hkept := Machine.keepsText_modify ho (Object.not_isText_throwable h) h5.heap
  refine ⟨hfresh, ⟨_, ho5, rfl, ?_⟩, ?_, (h4.modify hfresh h5).heap⟩
  · obtain ⟨libraries, hl⟩ := hs.libraries
    rw [hl]
    exact h.provided libraries
  · exact Machine.throwableMessage?_of_message (x := (Object.instanceOf c).setField 0 (.object p)) h ho5
      (Object.field_setField hfield) (hkept.stringValue hp)

theorem Engine.conditions_surface (bound : Nat) (libraries : List Library) (natives : NativeTable)
    (settings : Settings) (stdout stderr : Pipe) (journal : Journal) {c : Callers Inquiry Answer}
    {s : Scene} (hr : Callers.Run (Exec.ask (bounded bound)) Machine.Abides
      (.idle, .start libraries natives settings stdout stderr journal) (c, s)) :
    (∀ q : Condition, q.className ∈ throwableNames) ∧
    ∀ (t : Thread) (i k : Nat), s.machine.shouldTerminate t.id = false → s.machine.Free t.id →
      (∀ n ∈ throwableNames, ∀ message, (Exec.newThrowable (bounded (k + 24)) n message).Gives i t
        (s.machine.Throws n message) s) ∧
      ∀ cause : Cause, (Exec.materialize (bounded (k + 24)) cause).Gives i t
        (s.machine.Throws cause.condition.className cause.message) s := by
  refine ⟨className_mem_throwableNames, fun t i k halive hfree => ?_⟩
  have h := Callers.Registered.of_start (woven_bounded bound) hr
  have hs : s.machine.Serves t.id := h.serves halive hfree
  have hnew : ∀ n ∈ throwableNames, ∀ message, (Exec.newThrowable (bounded (k + 24)) n message).Gives
      i t (s.machine.Throws n message) s := by
    intro n hn message
    obtain ⟨d, c, hc, rfl, hd⟩ := exists_throwable hn
    exact Exec.gives_newThrowable hc hd hs message
  exact ⟨hnew, fun cause => hnew _ (className_mem_throwableNames _) _⟩

theorem Engine.conditions_surface_of_division :
    let s : Scene := .start [] .standard .standard .sound .sound (.ofVerbosity none)
    (Exec.materialize (bounded 24) .divisionByZero).Gives 1 (.start 1 "main")
      (s.machine.Throws .arithmetic "/ by zero") s ∧
    (Exec.newThrowable (bounded 24) .arrayIndexOutOfBounds "7").Gives 1 (.start 1 "main")
      (s.machine.Throws .arrayIndexOutOfBounds "7") s := by
  intro s
  have hfree : s.machine.Free 1 := fun l hl => by cases hl
  have h := (conditions_surface 24 [] .standard .standard .sound .sound (.ofVerbosity none)
    (c := .idle) (s := s) .refl).2 (.start 1 "main") 1 0 rfl hfree
  exact ⟨h.2 .divisionByZero, h.1 _ (by decide +kernel) "7"⟩

end BytecodeMachine
