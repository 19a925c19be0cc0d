import BytecodeMachine.Proofs.ArrayNames
import BytecodeMachine.Proofs.Bridge.Rendering
import BytecodeMachine.Proofs.Identities.Canonical
import BytecodeMachine.Proofs.Identities.Enrolling
import BytecodeMachine.Proofs.Initialization

namespace BytecodeMachine

namespace ClassName

theorem mem_element {c : Char} {cs : List Char} (hc : c ∈ cs) (hb : c ≠ '[') : c ∈ element cs := by
  rw [← List.takeWhile_append_dropWhile (p := (· = '[')) (l := cs), List.mem_append] at hc
  refine hc.resolve_left fun ht => hb ?_
  simpa using List.all_eq_true.1 List.all_takeWhile _ ht

theorem dot_of_check {cs : List Char} (h : check cs = .ok ()) : '.' ∉ cs := by
  intro hm
  fun_induction check cs with
  | case1 => cases hm
  | case2 tail c he hb =>
    have hd := mem_element ((List.mem_cons.1 hm).resolve_left (by decide)) (by decide)
    rw [he, List.mem_singleton] at hd
    subst hd
    revert hb
    decide
  | case3 => cases h
  | case4 tail rest _ he hl ih =>
    have hd := mem_element ((List.mem_cons.1 hm).resolve_left (by decide)) (by decide)
    rw [he, ← List.dropLast_append_getLast? ';' hl] at hd
    exact ih h (by simpa using hd)
  | case5 => cases h
  | case6 => cases h
  | case7 c tail hc =>
    obtain ⟨s, hs, hd⟩ := mem_segments hm (by decide)
    cases isReserved_of_checkSegments h s hs '.' hd

theorem swap_swap {a b c : Char} (h : c ≠ b) : swap b a (swap a b c) = c := by
  by_cases hc : c = a
  · simp [swap, hc]
  · simp [swap, hc, h]

theorem ofSource_toSource {n : ClassName} (h : n.Valid) : ofSource n.toSource = .ok n := by
  have hback : (n.text.toList.map (swap '/' '.')).map (swap '.' '/') = n.text.toList := by
    rw [List.map_map]
    refine (List.map_congr_left fun c hc => ?_).trans (List.map_id _)
    exact swap_swap fun hd => dot_of_check (check_of_valid h) (hd ▸ hc)
  rw [ofSource, toSource, String.toList_ofList, hback, String.ofList_toList, ofString_of_valid h]

end ClassName

namespace CoreLibrary

def getNameMethod : Method := ⟨.klass, ⟨"getName"⟩, ⟨[], some .string⟩, openNative, none⟩

def classByNameMethod : Method :=
  ⟨.objectAccess, ⟨"classByName"⟩, ⟨[.string], some klassType⟩, openStaticNative, none⟩

def objectAccessRecord : Class := ClassTable.regular .objectAccess objectAccess (some objectRecord) []

end CoreLibrary

namespace Exec

open CoreLibrary ClassTable

variable {i k : Nat} {t : Thread} {s : Scene} {n : ClassName} {o p : ObjectId}

theorem ends_callNative {e : Engine} {f : Method} {b : Native} {arguments : List Value}
    {Q : Post (Option Value)} (crossed : List NativeValue)
    (hb : s.machine.natives.get? f.ref.nativeKey = some b)
    (hargs : ∀ s', s'.machine = s.machine → (nativeArguments f arguments).Gives i t
      (fun r m => r = crossed ∧ m = s'.machine) s')
    (hcall : ∀ s', s.machine.Prepares t.id s'.machine →
      Ends (do takeNative e f (← applyNative e b crossed)) i t Q s') :
    (callNative e f arguments).Ends i t Q s := by
  refine gives_read.bind_ends fun found s1 h1 => ?_
  rw [h1.1, hb]
  refine (hargs s1 h1.2).bind_ends fun r s2 h2 => ?_
  obtain ⟨rfl, h2⟩ := h2
  refine (gives_update _).bind_ends fun _ s3 h3 => hcall s3 ?_
  rw [h3, h2, h1.2]
  exact Machine.prepares_note _ _

theorem gives_callNative {e : Engine} {f : Method} {b : Native} {arguments : List Value}
    {P : Option Value → Machine → Prop} (crossed : List NativeValue)
    (hb : s.machine.natives.get? f.ref.nativeKey = some b)
    (hargs : ∀ s', s'.machine = s.machine → (nativeArguments f arguments).Gives i t
      (fun r m => r = crossed ∧ m = s'.machine) s')
    (hcall : ∀ s', s.machine.Prepares t.id s'.machine →
      Gives (do takeNative e f (← applyNative e b crossed)) i t P s') :
    (callNative e f arguments).Gives i t P s :=
  ends_callNative crossed hb hargs hcall

theorem gives_getName (hs : s.machine.Serves t.id) (hn : s.machine.classNameOf? o = some n)
    (hb : s.machine.natives.get? getNameMethod.ref.nativeKey = some (.builtin .className)) :
    (callNative (.bounded (k + 8)) getNameMethod [.object o]).Gives i t (fun v m => ∃ p,
      v = some (.object p) ∧ s.machine.Adds t.id m ∧ m.stringValue p = .ok n.toSource) s := by
  refine gives_callNative [.object o] hb (fun _ _ => gives_pure ⟨rfl, rfl⟩)
    fun s1 h1 => ?_
  have hs1 := hs.continue h1.toContinues
  have hname : (applyNative (.bounded (k + 8)) (.builtin .className) [.object o]).Gives i t
      (fun v m => v = .string n.toSource ∧ s1.machine.Prepares t.id m) s1 := by
    refine (gives_classNameOf? hs1 o).bind fun r s2 h2 => ?_
    have hr : r = some n := by
      rw [h2.1, Machine.classNameOf?, h1.classObjects]
      exact hn
    rw [hr]
    exact gives_pure ⟨rfl, h2.2⟩
  refine hname.bind fun v s2 h2 => ?_
  obtain ⟨rfl, h2⟩ := h2
  have hadds := h1.adds.trans h2.adds
  have htake : takeNative (.bounded (k + 8)) getNameMethod (.string n.toSource) = (do
      let p ← newString (.bounded (k + 8)) n.toSource
      pure (some (.object p))) := by
    simp [takeNative, getNameMethod, FieldType.string, ofNative, ofNativeReference, takes]
  rw [htake]
  refine (gives_newString (hs1.continue h2.toContinues) n.toSource).bind fun p s3 h3 => ?_
  exact gives_pure ⟨p, rfl, hadds.trans h3.1, h3.2⟩

theorem gives_knownClassObject {e : Engine} (hs : s.machine.Serves t.id)
    (ho : s.machine.classObjects.get? n = some o) :
    (classObject e n).Gives i t (fun p m => p = o ∧ s.machine.Prepares t.id m) s := by
  refine gives_locked hs fun m h1 => gives_read.bind fun found s1 h2 => ?_
  have hfound : found = some o := by
    rw [h2.1]
    change m.classObjects.get? n = some o
    rw [h1.classObjects]
    exact ho
  rw [hfound]
  refine gives_pure ⟨rfl, ?_⟩
  rw [h2.2]
  exact h1.trans (Machine.prepares_unlock m)

theorem gives_string_toNative {text : String} (hp : s.machine.stringValue p = .ok text) :
    (toNative (.object p) .string).Gives i t (fun v m => v = .string text ∧ m = s.machine) s := by
  change (objectToNative p .string).Gives i t _ s
  refine (gives_stringValue hp).bind fun a s1 h1 => gives_pure ?_
  rw [h1.1]
  exact ⟨rfl, h1.2⟩

theorem takeNative_classByName (e : Engine) (n : ClassName) :
    takeNative e classByNameMethod (.klass n) = (do
      let o ← classObject e n
      pure (some (.object o))) := by
  simp [takeNative, classByNameMethod, klassType, ofNative, ofNativeReference, takes]

theorem gives_classByName {e : Engine} {c : Class} (hs : s.machine.Serves t.id) (hn : n.Valid)
    (hl : Loads s.machine.libraries n c) (ho : s.machine.classObjects.get? n = some o)
    (hp : s.machine.stringValue p = .ok n.toSource)
    (hb : s.machine.natives.get? classByNameMethod.ref.nativeKey =
      some (.intrinsic .classByName)) :
    (callNative e classByNameMethod [.object p]).Gives i t (fun v m => v = some (.object o) ∧
      s.machine.Prepares t.id m) s := by
  refine gives_callNative [.string n.toSource] hb (fun s1 h1 => ?_) fun s1 h1 => ?_
  · exact (gives_string_toNative (h1 ▸ hp)).bind fun v s2 h2 => gives_pure ⟨by rw [h2.1], h2.2⟩
  have hs1 := hs.continue h1.toContinues
  have hfound : (applyNative e (.intrinsic .classByName) [.string n.toSource]).Gives i t
      (fun v m => v = .klass n ∧ s1.machine.Prepares t.id m) s1 := by
    change (classByName n.toSource).Gives i t _ s1
    simp only [classByName, ClassName.ofSource_toSource hn]
    refine gives_act.bind fun r s2 h2 => ?_
    have hl := h1.libraries ▸ hl
    have hr : r = .ok c := (Prod.ext_iff.1 h2).1.trans (hl _ hs1.closed)
    have hm : s2.machine = _ := (Prod.ext_iff.1 h2).2
    rw [hr]
    refine gives_pure ⟨congrArg _ hl.name, ?_⟩
    rw [hm]
    exact Machine.prepares_resolve (Resolving.finds_loadClass n) _
  refine hfound.bind fun v s2 h2 => ?_
  obtain ⟨rfl, h2⟩ := h2
  have h12 := h1.trans h2
  rw [takeNative_classByName]
  refine (gives_knownClassObject (hs.continue h12.toContinues) (h12.classObjects ▸ ho)).bind
    fun q s3 h3 => gives_pure ⟨by rw [h3.1], h12.trans h3.2⟩

theorem ends_invokeNative {c : Class} {f : Method} {arguments : List Value}
    {Q : Except Trap (Option Value) → Machine → Prop} (hn : f.isNative = true)
    (hcall : ∀ s', s.machine.Prepares t.id s'.machine →
      (callNative (.bounded k) f arguments).Ends i (t.holding (.blank :: t.frames))
        (fun r t' s'' => t' = t.holding (.blank :: t.frames) ∧ Q r s''.machine) s') :
    (invokeMethod (.bounded (k + 1)) c f arguments).Ends i t
      (fun r t' s' => t' = t ∧ Q r s'.machine) s := by
  simp only [invokeMethod, enterMethod, hn, if_true, ends_bind, ends_note, ends_get, ends_modify,
    ends_attempt, after_ok]
  have hprep : s.machine.Prepares t.id (s.pass i (.noted (.hostCall f.ref))).machine :=
    Machine.prepares_note _ _
  refine Ends.mono (hcall _ hprep) ?_
  rintro (trap | v) t' s2 ⟨rfl, hq⟩
  · refine ⟨?_, hq⟩
    change t.holding (List.drop (t.frames.length + 1 - t.frames.length) (.blank :: t.frames)) = t
    simp
  have hrun (g : Frame) {Q' : Post Unit} (s3 : Scene)
      (h : ∀ s4, s4.machine = s3.machine → Q' (.ok ()) (t.holding (g :: t.frames)) s4) :
      ((Engine.bounded (k + 1)).run (t.depth + 1)).Ends i (t.holding (g :: t.frames)) Q' s3 := by
    refine Ends.mono (turns_run_within ?_) ?_
    · simp [Thread.isWithin_iff, Thread.depth]
    · rintro _ _ s4 ⟨rfl, _, rfl, h4⟩
      exact h s4 h4
  have htake (g : Frame) (hg : g.tossed = none) (hr : g.stack.head? = v) (s4 : Scene)
      (h4 : s4.machine = s2.machine) : takeResult.Ends i (t.holding (g :: t.frames))
        (fun r t' s' => t' = t ∧ Q r s'.machine) s4 := by
    refine Ends.mono (turns_takeResult rfl hg) ?_
    rintro _ _ s5 ⟨rfl, _, rfl, rfl, h5⟩
    rw [hr, h5, h4]
    exact ⟨rfl, hq⟩
  rw [after_ok]
  cases v with
  | none =>
    rw [ends_pure, after_ok]
    refine hrun .blank s2 ?_
    exact htake .blank rfl rfl
  | some w =>
    have hpush := turns_inFrame (i := i) (t := t.holding (.blank :: t.frames)) (s := s2)
      (a := .push w) (b := ()) (g := { Frame.blank with stack := [w] }) rfl rfl
    refine Ends.mono hpush ?_
    rintro _ _ s3 ⟨rfl, _, rfl, h3⟩
    rw [after_ok]
    refine hrun _ s3 fun s4 h4 => ?_
    exact htake _ rfl rfl s4 (h4.trans h3.2)

theorem gives_invokeNative {c : Class} {f : Method} {arguments : List Value}
    {P : Option Value → Machine → Prop} (hn : f.isNative = true)
    (hcall : ∀ s', s.machine.Prepares t.id s'.machine →
      (callNative (.bounded k) f arguments).Gives i (t.holding (.blank :: t.frames)) P s') :
    (invokeMethod (.bounded (k + 1)) c f arguments).Gives i t P s :=
  ends_invokeNative (Q := fun r m => ∃ a, r = .ok a ∧ P a m) hn hcall

end Exec

theorem Engine.class_names_come_back (bound : Nat) (libraries : List Library)
    (natives : NativeTable) (settings : Settings) (stdout stderr : Pipe) (journal : Journal)
    {c : Callers Inquiry Answer} {s : Scene}
    (hr : Callers.Run (Exec.ask (bounded bound)) Machine.Abides
      (.idle, .start libraries natives settings stdout stderr journal) (c, s)) :
    (∀ n : ClassName, n.Valid → ClassName.ofSource n.toSource = .ok n) ∧
    ∀ (t : Thread) (i k : Nat) (o : ObjectId) (n : ClassName),
      s.machine.shouldTerminate t.id = false → s.machine.Free t.id →
      s.machine.natives.get? CoreLibrary.getNameMethod.ref.nativeKey = some (.builtin .className) →
      s.machine.natives.get? CoreLibrary.classByNameMethod.ref.nativeKey =
        some (.intrinsic .classByName) →
      s.machine.classNameOf? o = some n → n.Valid →
      Exec.Gives (do
        let name ← Exec.invokeMethod (bounded (k + 9)) CoreLibrary.klassRecord
          CoreLibrary.getNameMethod [.object o]
        let back ← Exec.invokeMethod (bounded (k + 9)) CoreLibrary.objectAccessRecord
          CoreLibrary.classByNameMethod name.toList
        pure (name, back)) i t (fun r m => ∃ p, r = (some (.object p), some (.object o)) ∧
          m.stringValue p = .ok n.toSource) s := by
  have h := Callers.Registered.of_start (woven_bounded bound) hr
  have hstart := Machine.enrolled_empty (Scene.orderly_start libraries natives settings stdout stderr
    journal).closed rfl
  have he := hstart.enrolls (hstart.enrolls_run (woven_bounded bound) hr)
  refine ⟨fun n => ClassName.ofSource_toSource, fun t i k o n halive hfree hg hb ho hn => ?_⟩
  have hs : s.machine.Serves t.id := h.serves halive hfree
  have hget := (h.mirrored.inverse n o).1 ho
  obtain ⟨c, hl⟩ := he.loads n o hget
  have hname : (Exec.invokeMethod (bounded (k + 9)) CoreLibrary.klassRecord
      CoreLibrary.getNameMethod [.object o]).Gives i t (fun v m => ∃ p, v = some (.object p) ∧
        s.machine.Adds t.id m ∧ m.stringValue p = .ok n.toSource) s := by
    refine Exec.gives_invokeNative rfl fun s1 h1 => ?_
    have ho1 : s1.machine.classNameOf? o = some n := by
      rw [Machine.classNameOf?, h1.classObjects]
      exact ho
    refine (Exec.gives_getName (t := t.holding (.blank :: t.frames))
      (hs.continue h1.toContinues) ho1 (h1.natives ▸ hg)).mono ?_
    rintro v m ⟨p, hv, h2, hp⟩
    exact ⟨p, hv, h1.adds.trans h2, hp⟩
  refine hname.bind fun v s1 hv => ?_
  obtain ⟨p, rfl, h1, hp⟩ := hv
  have hback : (Exec.invokeMethod (bounded (k + 9)) CoreLibrary.objectAccessRecord
      CoreLibrary.classByNameMethod [.object p]).Gives i t (fun v m => v = some (.object o) ∧
        s1.machine.Adds t.id m) s1 := by
    refine Exec.gives_invokeNative rfl fun s2 h2 => ?_
    have h12 := h1.trans h2.adds
    refine (Exec.gives_classByName (t := t.holding (.blank :: t.frames))
      (hs.continue h12.toContinues) hn (h12.libraries ▸ hl) (h12.classObjects ▸ hget)
      (h2.adds.keepsText.stringValue hp) (h12.natives ▸ hb)).mono ?_
    rintro v m ⟨hv, h3⟩
    exact ⟨hv, h2.adds.trans h3.adds⟩
  refine hback.bind fun w s2 hw => ?_
  obtain ⟨rfl, h2⟩ := hw
  exact Exec.gives_pure ⟨p, rfl, h2.keepsText.stringValue hp⟩

theorem Engine.class_names_come_back_of_object :
    ∃ (c : Callers Inquiry Answer) (s : Scene) (o : ObjectId),
      Callers.Run (Exec.ask (bounded 8)) Machine.Abides
        (.idle, .start [] .standard .standard .sound .sound (.ofVerbosity none)) (c, s) ∧
      c.replies = [⟨1, .classObject .object, 0, .ok (.klass .object o)⟩] ∧
      ClassName.ofSource (ClassName.toSource .object) = .ok .object ∧
      Exec.Gives (do
        let name ← Exec.invokeMethod (bounded 9) CoreLibrary.klassRecord
          CoreLibrary.getNameMethod [.object o]
        let back ← Exec.invokeMethod (bounded 9) CoreLibrary.objectAccessRecord
          CoreLibrary.classByNameMethod name.toList
        pure (name, back)) 1 (.start 1 "main") (fun r m => ∃ p,
          r = (some (.object p), some (.object o)) ∧ m.stringValue p = .ok "java.lang.Object") s := by
  let s0 : Scene := .start [] .standard .standard .sound .sound (.ofVerbosity none)
  let t : Thread := .start 1 "main"
  have hs : s0.machine.Serves t.id :=
    ⟨⟨[], rfl⟩, ClassTable.closed_nil _, rfl, fun l hl => by cases hl⟩
  have hm : s0.machine.Mirrored := (Callers.registered_idle
    ⟨hs.libraries, hs.closed⟩ rfl rfl).mirrored
  have hasked : (Exec.ask (bounded 8) (.classObject .object)).Gives t.id t (fun a m => ∃ o,
      a = .klass .object o ∧ s0.machine.Continues t.id m ∧ m.classNameOf? o = some .object) s0 :=
    (Exec.gives_classObject hs hm (hs.load (CoreLibrary.provides_record rfl))).bind fun o s1 h1 =>
      Exec.gives_pure ⟨o, rfl, h1⟩
  obtain ⟨_, _, s1, ⟨-, _, rfl, o, rfl, h1, ho⟩, hr⟩ :=
    Callers.run_of_ends Machine.Abides (c := .idle) rfl hasked
  have hs1 := hs.continue h1
  have hvalid : ClassName.Valid .object := by decide +kernel
  have h := class_names_come_back 8 [] .standard .standard .sound .sound (.ofVerbosity none) hr
  exact ⟨_, s1, o, hr, rfl, h.1 _ hvalid, h.2 t 1 0 o .object hs1.alive hs1.free
    (h1.natives ▸ rfl) (h1.natives ▸ rfl) ho hvalid⟩

end BytecodeMachine
