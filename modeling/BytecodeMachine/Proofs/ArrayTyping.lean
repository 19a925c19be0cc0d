import BytecodeMachine.Proofs.Typing.Runs

namespace BytecodeMachine

namespace Machine

variable {m m' : Machine} {c : Class} {s : ArrayStorage} {o : ObjectId} {x : Object}

theorem Holds.kind_eq_new (h : m.Holds c s) :
    ∃ t, c.componentType? = some t ∧ s.kind = (ArrayStorage.new t s.length).kind :=
  h.kind

theorem Holds.element (h : m.Holds c s) {e : ObjectId} (he : Value.object e ∈ s.toList) :
    ∃ k y, c.component = some k ∧ m.heap.get? e = some y ∧ y.klass.isAssignable k = true := by
  obtain ⟨k, hk, hf⟩ := h.elements e he
  obtain ⟨y, hy, ha⟩ := fitsComponent_iff.1 hf
  exact ⟨k, y, hk, hy, ha⟩

theorem Grows.array (h : m.Grows m') (ho : m.heap.get? o = some x) (hb : x.body = .array s) :
    ∃ x' s', m'.heap.get? o = some x' ∧ x'.klass = x.klass ∧ x'.body = .array s' ∧
      s'.kind = s.kind ∧ s'.length = s.length := by
  obtain ⟨x', hx', hk, hshape⟩ := h.heap o x ho
  rw [hb] at hshape
  cases hb' : x'.body with
  | fields values =>
    rw [hb'] at hshape
    cases congrArg Prod.fst hshape
  | array s' =>
    rw [hb'] at hshape
    refine ⟨x', s', hx', hk, hb', ?_, congrArg Prod.snd hshape⟩
    exact Option.some.inj (congrArg Prod.fst hshape)

end Machine

theorem Engine.arrays_typed (bound : Nat) (libraries : List Library) (natives : NativeTable)
    (settings : Settings) (stdout stderr : Pipe) (journal : Journal) (name : Nat → String)
    (demands : Nat → List Demand) {c : Pool (Except Trap Unit × Thread) × Scene}
    (hr : Pool.Run Machine.Rests ((bounded bound).sessions name demands,
      .start libraries natives settings stdout stderr journal) c) :
    (∀ o x s, c.2.machine.heap.get? o = some x → x.body = .array s →
      (∃ t, x.klass.componentType? = some t ∧ s.kind = (ArrayStorage.new t s.length).kind) ∧
      ∀ e, .object e ∈ s.toList → ∃ k y, x.klass.component = some k ∧
        c.2.machine.heap.get? e = some y ∧ y.klass.isAssignable k = true) ∧
    ∀ c' o x s, Pool.Run Machine.Rests c c' → c.2.machine.heap.get? o = some x →
      x.body = .array s → ∃ x' s', c'.2.machine.heap.get? o = some x' ∧ x'.klass = x.klass ∧
        x'.body = .array s' ∧ s'.kind = s.kind ∧ s'.length = s.length := by
  have h := ((kept_sessions bound libraries natives settings stdout stderr journal name
    demands).run hr).2
  refine ⟨fun o x s ho hb => ?_, fun c' o x s hr' ho hb => (h.run hr').1.grows.array ho hb⟩
  have hs := h.sound.arrays o x s ho hb
  exact ⟨hs.kind_eq_new, fun e he => hs.element he⟩

theorem Engine.arrays_typed_of_sample :
    ∃ c x s, Pool.Run Machine.Rests (samplePool, sampleScene) c ∧
      c.2.machine.heap.get? ⟨1⟩ = some x ∧ x.body = .array s ∧ .object ⟨2⟩ ∈ s.toList ∧
      (∃ t, x.klass.componentType? = some t ∧ s.kind = (ArrayStorage.new t s.length).kind) ∧
      (∃ k y, x.klass.component = some k ∧ c.2.machine.heap.get? ⟨2⟩ = some y ∧
        y.klass.isAssignable k = true) ∧
      ∀ c', Pool.Run Machine.Rests c c' → ∃ x' s', c'.2.machine.heap.get? ⟨1⟩ = some x' ∧
        x'.klass = x.klass ∧ x'.body = .array s' ∧ s'.kind = s.kind ∧ s'.length = s.length := by
  obtain ⟨_, c, hr, hr', -, -, hm⟩ := run_sample Machine.Rests
  have h := arrays_typed 12 [sampleLibrary] .standard .standard .sound .sound (.ofVerbosity none)
    (fun _ => "main") (fun _ => sampleDemands) (hr.trans hr')
  have ho : c.2.machine.heap.get? ⟨1⟩ = some (samplesObject (some ⟨2⟩)) := by rw [hm]; rfl
  have he : Value.object ⟨2⟩ ∈ ArrayStorage.toList ⟨.reference, #[some ⟨2⟩]⟩ := List.mem_cons_self
  obtain ⟨hkind, helements⟩ := h.1 _ _ _ ho rfl
  exact ⟨c, _, _, hr.trans hr', ho, rfl, he, hkind, helements _ he,
    fun c' hr' => h.2 c' _ _ _ hr' ho rfl⟩

end BytecodeMachine
