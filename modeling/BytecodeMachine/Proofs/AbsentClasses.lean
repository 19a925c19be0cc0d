import BytecodeMachine.Proofs.Bridge.Mirrors
import BytecodeMachine.Proofs.ClassNames
import BytecodeMachine.Proofs.Loading.Faults

namespace BytecodeMachine

open ClassTable CoreLibrary Relation

inductive Answers (libraries : List Library) (text : String) :
    Except Trap (Option ClassName) → Prop
  | invalid {e : NameError} (hn : ClassName.ofSource text = .error e) :
      Answers libraries text (.ok none)
  | loaded {n : ClassName} {c : Class} (hn : ClassName.ofSource text = .ok n)
      (hc : Loads libraries n c) : Answers libraries text (.ok (some n))
  | absent {n k : ClassName} (hn : ClassName.ofSource text = .ok n)
      (hf : Fails libraries [] n (.classNotFound k)) : Answers libraries text (.ok none)
  | failed {n : ClassName} {e : LinkError} (hn : ClassName.ofSource text = .ok n)
      (hf : Fails libraries [] n e) (he : ∀ k, e ≠ .classNotFound k) :
      Answers libraries text (.error e.trap)

def Machine.Conveys (m : Machine) : Except Trap (Option ClassName) → Except Trap (Option Value) → Prop
  | .ok (some n), r => ∃ o, r = .ok (some (.object o)) ∧ m.classNameOf? o = some n
  | .ok none, r => r = .ok (some .null)
  | .error trap, r => r = .error trap

variable {libraries : List Library} {text : String} {m : Machine} {a : Except Trap (Option ClassName)}
  {r : Except Trap (Option Value)}

theorem Machine.Conveys.eq_null_iff (h : m.Conveys a r) : r = .ok (some .null) ↔ a = .ok none := by
  rcases a with trap | _ | n
  · rw [show r = .error trap from h]
    simp
  · rw [show r = .ok (some .null) from h]
    simp
  · obtain ⟨o, rfl, -⟩ := h
    simp [Value.object, Value.null]

theorem Answers.eq_none_iff (h : Answers libraries text a) :
    a = .ok none ↔ ∀ n, ClassName.ofSource text = .ok n →
      ∃ k, Fails libraries [] n (.classNotFound k) := by
  cases h with
  | invalid hn => exact ⟨fun _ n hn' => (nomatch hn.symm.trans hn'), fun _ => rfl⟩
  | @loaded n c hn hc =>
    refine ⟨nofun, fun hall => ?_⟩
    obtain ⟨k, hf⟩ := hall n hn
    cases (hc [] (closed_nil _)).symm.trans (hf.fst_load nofun (closed_nil _))
  | @absent n k hn hf =>
    refine ⟨fun _ n' hn' => ?_, fun _ => rfl⟩
    cases hn.symm.trans hn'
    exact ⟨k, hf⟩
  | @failed n e hn hf he =>
    refine ⟨nofun, fun hall => ?_⟩
    obtain ⟨k, hk⟩ := hall n hn
    exact absurd (hf.unique hk) (he k)

namespace Exec

variable {i k : Nat} {t : Thread} {s : Scene} {p : ObjectId}

theorem ends_classByName (text : String) (h : Closed s.machine.libraries s.machine.classes) :
    (classByName text).Ends i t (fun r t' s' => t' = t ∧ s.machine.Prepares t.id s'.machine ∧
      ∃ a, Answers s.machine.libraries text a ∧
        r = a.map fun found => found.elim .null .klass) s := by
  cases hn : ClassName.ofSource text with
  | error e =>
    simp only [classByName, hn]
    exact ⟨rfl, .refl _, .ok none, .invalid hn, rfl⟩
  | ok n =>
    simp only [classByName, hn]
    refine gives_act.bind_ends fun found s1 hact => ?_
    obtain ⟨hfound, hs1⟩ := Prod.ext_iff.1 hact
    change found = (load s.machine.libraries [] n s.machine.classes).1 at hfound
    change s1.machine = _ at hs1
    have h1 : s.machine.Prepares t.id s1.machine := by
      rw [hs1]
      exact Machine.prepares_resolve (Resolving.finds_loadClass n) _
    cases found with
    | ok c =>
      have hc := loads_of_load h hfound.symm
      refine ⟨rfl, h1, .ok (some n), .loaded hn hc, ?_⟩
      change Except.ok (NativeValue.klass c.name) = _
      rw [hc.name]
      rfl
    | error e =>
      have hf := fails_of_load [] n h hfound.symm
      cases e with
      | classNotFound k => exact ⟨rfl, h1, .ok none, .absent hn hf, rfl⟩
      | _ => exact ⟨rfl, h1, _, .failed hn hf (fun _ he => by cases he), rfl⟩

theorem ends_callClassByName (hs : s.machine.Serves t.id) (hm : s.machine.Mirrored)
    (hp : s.machine.stringValue p = .ok text)
    (hb : s.machine.natives.get? classByNameMethod.ref.nativeKey = some (.intrinsic .classByName)) :
    (callNative (.bounded (k + 2)) classByNameMethod [.object p]).Ends i t
      (fun r t' s' => t' = t ∧ ∃ a, Answers s.machine.libraries text a ∧ s'.machine.Conveys a r) s := by
  refine ends_callNative [.string text] hb (fun s1 h1 => ?_) fun s1 h1 => ?_
  · exact (gives_string_toNative (h1 ▸ hp)).bind fun v s2 h2 => gives_pure ⟨by rw [h2.1], h2.2⟩
  have hs1 := hs.continue h1.toContinues
  refine ends_bind.2 (Ends.mono (ends_classByName text hs1.closed) ?_)
  rintro r t' s2 ⟨rfl, h2, a, ha, rfl⟩
  rw [h1.libraries] at ha
  rcases a with trap | _ | n
  · exact ⟨rfl, _, ha, rfl⟩
  · refine ⟨rfl, _, ha, rfl⟩
  · have hs2 := hs1.continue h2.toContinues
    have h12 := h1.trans h2
    have hm2 : s2.machine.Mirrored := hm.bears (.of_heap h12.classObjects h12.heap)
    cases ha with
    | loaded hn hc =>
      have hload := hc s2.machine.classes (h12.libraries ▸ hs2.closed)
      rw [← h12.libraries] at hload
      rw [Except.map, Option.elim, after_ok, takeNative_classByName]
      refine (gives_classObject hs2 hm2 hload).bind_ends fun o s3 h3 => ?_
      exact ⟨rfl, _, .loaded hn hc, o, rfl, h3.2⟩

end Exec

theorem Engine.absent_classes_are_null (bound : Nat) (libraries : List Library)
    (natives : NativeTable) (settings : Settings) (stdout stderr : Pipe) (journal : Journal)
    {c : Callers Inquiry Answer} {s : Scene}
    (hr : Callers.Run (Exec.ask (bounded bound)) Machine.Abides
      (.idle, .start libraries natives settings stdout stderr journal) (c, s))
    (t : Thread) (i k : Nat) (p : ObjectId) (text : String)
    (halive : s.machine.shouldTerminate t.id = false) (hfree : s.machine.Free t.id)
    (hb : s.machine.natives.get? classByNameMethod.ref.nativeKey = some (.intrinsic .classByName))
    (hp : s.machine.stringValue p = .ok text) :
    (Exec.invokeMethod (bounded (k + 3)) objectAccessRecord classByNameMethod [.object p]).Ends i t
      (fun r t' s' => t' = t ∧
        (∃ a, Answers (library :: libraries) text a ∧ s'.machine.Conveys a r) ∧
        (r = .ok (some .null) ↔ ∀ n, ClassName.ofSource text = .ok n →
          ∃ m, Fails (library :: libraries) [] n (.classNotFound m)) ∧
        ∀ n, ClassName.ofSource text = .ok n →
          (Absent (library :: libraries) n → r = .ok (some .null)) ∧
          (r = .ok (some .null) → ∃ m, ReflTransGen (Declares (library :: libraries)) n m ∧
            Absent (library :: libraries) m)) s := by
  have h := Callers.Registered.of_start (woven_bounded bound) hr
  have hs : s.machine.Serves t.id := h.serves halive hfree
  have hlibraries : s.machine.libraries = library :: libraries :=
    ((Machine.enrolled_empty (Scene.orderly_start libraries natives settings stdout stderr
      journal).closed rfl).enrolls_run (woven_bounded bound) hr).libraries
  have hcall : (Exec.invokeMethod (bounded (k + 3)) objectAccessRecord classByNameMethod
      [.object p]).Ends i t (fun r t' s' => t' = t ∧
        ∃ a, Answers (library :: libraries) text a ∧ s'.machine.Conveys a r) s := by
    refine Exec.ends_invokeNative (Q := fun r m => ∃ a, Answers (library :: libraries) text a ∧
      m.Conveys a r) rfl fun s1 h1 => ?_
    have hcalled := Exec.ends_callClassByName (i := i) (t := t.holding (.blank :: t.frames)) (k := k)
      (hs.continue h1.toContinues) (h.mirrored.bears (.of_heap h1.classObjects h1.heap))
      (h1.adds.keepsText.stringValue hp) (h1.natives ▸ hb)
    rwa [h1.libraries, hlibraries] at hcalled
  refine hcall.mono fun r t' s' ⟨ht, a, ha, hc⟩ => ?_
  have hnull := hc.eq_null_iff.trans ha.eq_none_iff
  refine ⟨ht, ⟨a, ha, hc⟩, hnull, fun n hn => ⟨fun habsent => hnull.2 fun n' hn' => ?_, fun hr => ?_⟩⟩
  · cases hn.symm.trans hn'
    exact habsent.fails nofun
  · obtain ⟨m, hf⟩ := hnull.1 hr n hn
    exact ⟨m, hf.absent⟩

def orphan : ClassData := CoreLibrary.klass ⟨"t/A"⟩ ⟨"t/Missing"⟩ .plain [] [] []

def orphanage : List Library := [.ofClasses "orphanage" [orphan] []]

theorem Machine.exists_spelled (text : String) (m : Machine) :
    ∃ m' p, m.Abides m' ∧ (∀ thread, m.Adds thread m') ∧ m'.stringValue p = .ok text := by
  let units := Text.units text.toList
  let chars := m.alloc (.ofStorage charsRecord (.ofChars units)) 0
  let made := chars.2.alloc ((Object.instanceOf stringRecord).setField 0 (.object chars.1)) 0
  have hchars : made.2.heap.get? chars.1 = _ :=
    Heap.get?_alloc_of_some _ (Heap.get?_alloc_self m.heap _)
  have hunits : made.2.unitsOf made.1 = .ok units :=
    unitsOf_of_spells ⟨Heap.get?_alloc_self chars.2.heap _, rfl, rfl, rfl, _, _, hchars, rfl, rfl⟩
  refine ⟨made.2, made.1, ((leaves_alloc _ _ _).trans (leaves_alloc _ _ _)).toAbides,
    fun thread => (adds_alloc _ _ m).trans (adds_alloc _ _ _), ?_⟩
  rw [stringValue_of_unitsOf hunits, Text.chars_units, String.ofList_toList]

theorem Engine.absent_classes_are_null_above_orphan :
    ∃ (c : Callers Inquiry Answer) (s : Scene) (p : ObjectId),
      Callers.Run (Exec.ask (bounded 8)) Machine.Abides
        (.idle, .start orphanage .standard .standard .sound .sound (.ofVerbosity none)) (c, s) ∧
      s.machine.shouldTerminate 1 = false ∧ s.machine.Free 1 ∧
      s.machine.natives.get? classByNameMethod.ref.nativeKey = some (.intrinsic .classByName) ∧
      s.machine.stringValue p = .ok "t.A" ∧ classData? (library :: orphanage) orphan.name = some orphan ∧
      (Exec.invokeMethod (bounded 3) objectAccessRecord classByNameMethod [.object p]).Ends 1
        (.start 1 "main") (fun r _ _ => r = .ok (some .null)) s := by
  let s0 : Scene := .start orphanage .standard .standard .sound .sound (.ofVerbosity none)
  have hs0 : s0.machine.Serves 1 :=
    ⟨⟨orphanage, rfl⟩, ClassTable.closed_nil _, rfl, fun l hl => by cases hl⟩
  obtain ⟨m, p, hm, hadds, hp⟩ := s0.machine.exists_spelled "t.A"
  have hs := hs0.continue (hadds 1).toContinues
  have hr : Callers.Run (Exec.ask (bounded 8)) Machine.Abides (.idle, s0) (.idle, s0.become m) :=
    .single (.outside hm)
  have hb : m.natives.get? classByNameMethod.ref.nativeKey = some (.intrinsic .classByName) :=
    (hadds 1).natives ▸ rfl
  have hd : define (library :: orphanage) orphan.name = .ok ⟨[(.superclass, ⟨"t/Missing"⟩)],
      fun cs => ClassTable.regular orphan.name orphan cs.head? cs.tail⟩ := rfl
  have hmissing : Fails (library :: orphanage) [orphan.name] ⟨"t/Missing"⟩
      (.classNotFound ⟨"t/Missing"⟩) :=
    .undefined (by decide) (define_of_unprovided (by decide) (by decide) (by decide +kernel))
  have hfails : Fails (library :: orphanage) [] orphan.name (.classNotFound ⟨"t/Missing"⟩) :=
    .inLink List.not_mem_nil hd (List.nil_append _).symm nofun hmissing
  have h := absent_classes_are_null 8 orphanage .standard .standard .sound .sound (.ofVerbosity none) hr
    (.start 1 "main") 1 0 p "t.A" hs.alive hs.free hb hp
  refine ⟨_, _, p, hr, hs.alive, hs.free, hb, hp, by decide +kernel, h.mono fun r t' s' hr => ?_⟩
  obtain ⟨-, -, hnull, -⟩ := hr
  have hn : ClassName.ofSource "t.A" = .ok orphan.name := by decide +kernel
  refine hnull.2 fun n hn' => ?_
  cases hn.symm.trans hn'
  exact ⟨_, hfails⟩

end BytecodeMachine
