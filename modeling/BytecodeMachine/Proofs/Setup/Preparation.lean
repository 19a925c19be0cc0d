import BytecodeMachine.Proofs.Setup.Settling

namespace BytecodeMachine

open InitState Relation

namespace Class

theorem chain_tail (c : Class) : c.chain.tail = chain.chainOf c.superclass := by
  cases c
  rfl

end Class

namespace Scene

variable {i : Nat} {n : ClassName} {c : Class} {s : Scene}

def Seeded (fields : List Field) (s : Scene) : Prop :=
  ∀ f ∈ fields, f.isStatic = true → (s.machine.statics.get? (f.owner, f.index)).isSome = true

theorem Coherent.inside (hs : s.Coherent) (ho : s.owner = some i) (hn : s.state n = initializing) :
    s.Inside i n := by
  obtain ⟨j, hj, hi⟩ := hs.busy n hn
  cases hj.symm.trans ho
  exact hi

theorem Coherent.left (hs : s.Coherent) (hn : s.state n ≠ uninitialized)
    (ho : s.state n = initializing → s.owner = some i) : s.Left i n := by
  cases h : s.state n with
  | uninitialized => exact absurd h hn
  | initializing => exact .inr ⟨h, hs.inside (ho h) h⟩
  | initialized => exact .inl h

theorem Near.fill {d : ClassName} (h : s.Near i (some d)) (hd : s.state d ≠ uninitialized) :
    s.Near i none := by
  intro ho hsp n c hc hn k hk
  rcases h ho hsp n c hc hn k hk with h | h
  · exact .inl h
  · cases h
    exact .inl hd

def Started (s : Scene) (d : Class) : Prop :=
  s.found d.name = some d ∧ s.state d.name ≠ uninitialized

theorem Near.superclass_started (h : s.Near i none) (hs : s.Coherent) (ho : s.owner = some i)
    (hsp : s.Spared) {d k : Class} (hd : s.Started d) (hk : d.superclass = some k) :
    s.Started k := by
  have hmem := Class.mem_above_of_superclass hk true
  refine ⟨hs.closed.above hd.1 hmem, ?_⟩
  cases hn : s.state d.name with
  | uninitialized => exact absurd hn hd.2
  | initializing => exact (h ho hsp d.name d hd.1 hn k hk).resolve_right nofun
  | initialized => exact hs.above hsp d.name d hd.1 hn k hmem

theorem Coherent.under_initialized (hs : s.Coherent) (hsp : s.Spared) (hc : s.found n = some c)
    (ha : ∀ d ∈ c.above true, s.state d.name ≠ uninitialized)
    (hb : ∀ d, TransGen Class.Under c d → s.state d.name ≠ initializing) {d : Class}
    (hd : TransGen Class.Under c d) :
    s.state d.name = initialized := by
  have done {k : Class} (hk : TransGen Class.Under c k) (hn : s.state k.name ≠ uninitialized) :
      s.state k.name = initialized := by
    cases h : s.state k.name with
    | uninitialized => exact absurd h hn
    | initializing => exact absurd h (hb k hk)
    | initialized => rfl
  have both : s.found d.name = some d ∧ s.state d.name = initialized := by
    induction hd with
    | single hd => exact ⟨hs.closed.above hc hd, done (.single hd) (ha _ hd)⟩
    | tail hk hd ih =>
      exact ⟨hs.closed.above ih.1 hd, done (.tail hk hd) (hs.above hsp _ _ ih.1 ih.2 _ hd)⟩
  exact both.2

theorem Coherent.prepared (hs : s.Coherent) (ho : s.owner = some i) (hsp : s.Spared)
    (hnear : s.Near i none) (hc : s.found n = some c) (hf : s.Seeded c.fields)
    (ha : ∀ d ∈ c.above true, s.state d.name ≠ uninitialized) : s.Prepared i c where
  seeded := hf
  nearest d hd := by
    refine hs.left ?_ fun _ => ho
    rcases List.mem_append.1 hd with hd | hd
    · rw [Class.chain_tail] at hd
      cases hk : c.superclass with
      | none =>
        rw [hk] at hd
        cases hd
      | some k =>
        rw [hk] at hd
        have hmem := Class.mem_above_of_superclass hk true
        have start : s.Started k := ⟨hs.closed.above hc hmem, ha k hmem⟩
        exact (Class.forall_chain (P := s.Started)
          (fun d hd k hk => hnear.superclass_started hs ho hsp hd hk) k start d hd).2
    · exact ha d (List.mem_append_right _ hd)
  all hb d hd := hs.under_initialized hsp hc ha hb hd

end Scene

end BytecodeMachine
