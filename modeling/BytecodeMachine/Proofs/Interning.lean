import BytecodeMachine.Proofs.Identities
import BytecodeMachine.Proofs.Surrogates

namespace BytecodeMachine

variable {i n : Nat} {t : Thread} {s : Scene}

def Machine.InternedFor (m : Machine) (units : List UInt16) (o : ObjectId) : Prop :=
  m.interned.get? (String.ofList (Text.chars units)) = some o

theorem Machine.Interns.same_iff {m : Machine} (h : m.Interns) {us vs : List UInt16}
    {o p : ObjectId} (ho : m.InternedFor us o) (hp : m.InternedFor vs p) :
    o = p ↔ Text.mended us = Text.mended vs := by
  rw [← Text.chars_eq_iff]
  constructor
  · rintro rfl
    exact String.ofList_injective (h.injective _ _ o ho hp)
  · intro heq
    rw [InternedFor, heq] at ho
    exact Option.some.inj (ho.symm.trans hp)

theorem Exec.gives_internOf {o : ObjectId} {us : List UInt16} (hs : s.machine.Serves t.id)
    (ho : s.machine.unitsOf o = .ok us) :
    (ask (.bounded (n + 8)) (.internOf o)).Gives i t (fun a m => ∃ p,
      a = .text (String.ofList (Text.chars us)) p ∧ m.InternedFor us p ∧ m.unitsOf o = .ok us ∧
      ((∀ q, s.machine.InternedFor us q → s.machine.unitsOf q = .ok (Text.mended us)) →
        m.unitsOf p = .ok (Text.mended us))) s := by
  have hread : (stringValue o).Gives i t (fun text m =>
      text = String.ofList (Text.chars us) ∧ m = s.machine) s := by
    refine gives_read.bind fun r s1 h1 => ?_
    rw [h1.1, Machine.stringValue_of_unitsOf ho]
    exact gives_pure ⟨rfl, h1.2⟩
  refine hread.bind fun text s1 h1 => ?_
  obtain ⟨rfl, h1⟩ := h1
  refine (gives_kept (h1 ▸ hs) _).bind fun p s2 h2 => gives_pure ⟨p, rfl, h2.1, ?_, fun hold => ?_⟩
  all_goals rw [h1] at h2
  · exact h2.2.1.unitsOf ho
  · cases hq : s.machine.interned.get? (String.ofList (Text.chars us)) with
    | none => rw [h2.2.2.2 hq, String.toList_ofList, Text.units_chars]
    | some q =>
      rw [← h2.2.2.1 q hq]
      exact h2.2.1.unitsOf (hold q hq)

-- The units of what a string is interned as are its own exactly if its surrogates are in pairs.
theorem Engine.interning_mends_units (bound : Nat) (libraries : List Library)
    (natives : NativeTable) (settings : Settings) (stdout stderr : Pipe) (journal : Journal)
    {c : Callers Inquiry Answer} {s : Scene}
    (hr : Callers.Run (Exec.ask (bounded bound)) Machine.Abides
      (.idle, .start libraries natives settings stdout stderr journal) (c, s)) :
    (∀ r ∈ c.replies, ∀ us o, r.outcome = .ok (.text (String.ofList (Text.chars us)) o) →
      s.machine.InternedFor us o) ∧
    (∀ us vs o p, s.machine.InternedFor us o → s.machine.InternedFor vs p →
      (o = p ↔ Text.mended us = Text.mended vs)) ∧
    ∀ (t : Thread) (i k : Nat) (o : ObjectId) (us : List UInt16),
      s.machine.shouldTerminate t.id = false → s.machine.Free t.id →
      s.machine.unitsOf o = .ok us →
      (Exec.builtin (bounded (k + 8)) .intern [.object o]).Gives i t (fun v m => ∃ p,
        v = .object p ∧ m.InternedFor us p ∧ m.unitsOf o = .ok us ∧
        ((∀ q, s.machine.InternedFor us q → s.machine.unitsOf q = .ok (Text.mended us)) →
          m.unitsOf p = .ok (Text.mended us) ∧ (m.unitsOf p = .ok us ↔ Text.Paired us))) s := by
  have h := Callers.Registered.of_start (woven_bounded bound) hr
  refine ⟨fun r hr us o ho => h.holds hr ho, fun us vs o p => h.interns.same_iff,
    fun t i k o us halive hfree ho => ?_⟩
  have hs : s.machine.Serves t.id := h.serves halive hfree
  rw [Exec.builtin_intern]
  refine (Exec.gives_internOf hs ho).bind fun a s1 ⟨p, ha, hp, hkept, hmended⟩ => ?_
  refine Exec.gives_pure ⟨p, ?_, hp, hkept, fun hold => ⟨hmended hold, ?_⟩⟩
  · rw [ha]
    rfl
  · rw [hmended hold, Except.ok.injEq, Text.mended_eq_self_iff]

theorem Engine.interning_mends_units_of_lone_surrogate :
    ∃ (c : Callers Inquiry Answer) (s : Scene) (o : ObjectId),
      Callers.Run (Exec.ask (bounded 8)) Machine.Abides
        (.idle, .start [] .standard .standard .sound .sound (.ofVerbosity none)) (c, s) ∧
      s.machine.shouldTerminate 1 = false ∧ s.machine.Free 1 ∧ s.machine.unitsOf o = .ok [0xD800] ∧
      (Exec.builtin (bounded 8) .intern [.object o]).Gives 1 (.start 1 "main") (fun v m => ∃ p,
        v = .object p ∧ m.unitsOf p = .ok [0xFFFD] ∧ m.unitsOf o = .ok [0xD800]) s := by
  let s0 : Scene := .start [] .standard .standard .sound .sound (.ofVerbosity none)
  let chars := s0.machine.alloc (.ofStorage CoreLibrary.charsRecord (.ofChars [0xD800])) 0
  let made := chars.2.alloc
    ((Object.instanceOf CoreLibrary.stringRecord).setField 0 (.object chars.1)) 0
  have hm : s0.machine.Abides made.2 :=
    ((Machine.leaves_alloc _ _ _).trans (Machine.leaves_alloc _ _ _)).toAbides
  have hr : Callers.Run (Exec.ask (bounded 8)) Machine.Abides (.idle, s0) (.idle, s0.become made.2) :=
    .single (.outside hm)
  have hchars : made.2.heap.get? chars.1 = _ :=
    Heap.get?_alloc_of_some _ (Heap.get?_alloc_self s0.machine.heap _)
  have ho : (s0.become made.2).machine.unitsOf made.1 = .ok [0xD800] :=
    Machine.unitsOf_of_spells ⟨Heap.get?_alloc_self chars.2.heap _, rfl, rfl, rfl, _, _, hchars, rfl, rfl⟩
  have hfree : (s0.become made.2).machine.Free 1 := fun l hl => by cases hl
  have h := interning_mends_units 8 [] .standard .standard .sound .sound (.ofVerbosity none) hr
  refine ⟨_, _, made.1, hr, rfl, hfree, ho,
    (h.2.2 (.start 1 "main") 1 0 made.1 _ rfl hfree ho).mono fun v m ⟨p, hv, _, hkept, hmended⟩ => ?_⟩
  refine ⟨p, hv, (hmended fun q hq => ?_).1, hkept⟩
  cases hq

end BytecodeMachine
