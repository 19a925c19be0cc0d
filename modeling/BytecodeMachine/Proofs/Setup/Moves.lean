import BytecodeMachine.Proofs.Loading.Assignability
import BytecodeMachine.Proofs.Setup.Coherence

namespace BytecodeMachine

variable {α β : Type}

open InitState Relation

namespace Scene

variable {i j : Nat} {n : ClassName} {s s' : Scene}

def Left (i : Nat) (n : ClassName) (s : Scene) : Prop :=
  s.state n = initialized ∨ s.state n = initializing ∧ s.Inside i n

theorem Left.started (h : s.Left i n) : s.state n ≠ uninitialized := by
  rcases h with h | ⟨h, -⟩
  all_goals
    rw [h]
    exact nofun

structure Prepared (i : Nat) (c : Class) (s : Scene) : Prop where
  seeded : ∀ f ∈ c.fields, f.isStatic = true →
    (s.machine.statics.get? (f.owner, f.index)).isSome = true
  nearest : ∀ d ∈ c.chain.tail ++ c.interfaces, s.Left i d.name
  all : (∀ d, TransGen Class.Under c d → s.state d.name ≠ initializing) →
    ∀ d, TransGen Class.Under c d → s.state d.name = initialized

structure Ready (i : Nat) (n : ClassName) (s : Scene) : Prop where
  owner : s.owner = some i
  state : s.state n = initializing
  first : s.calls n = 0
  prepared : s.Spared → ∃ c, s.found n = some c ∧ s.Prepared i c

structure Moved (i : Nat) (s s' : Scene) : Prop where
  states : ∀ n, s'.state n = s.state n ∨
    s.state n = uninitialized ∧ s'.state n = initializing ∨
    s.state n = initializing ∧ s'.state n = initialized
  left : ∀ n, s'.passed = (i, .setUpLeft n) :: s.passed → s.Left i n
  called : ∀ n, s'.passed = (i, .initializer n) :: s.passed → s.Ready i n

end Scene

def Contract.setup (i : Nat) : Contract where
  thread := i
  rely s s' := s.Coherent → s'.Coherent ∧ s.Rest i s'
  guarantee s s' := s.Coherent → s'.Coherent ∧ (∀ j, j ≠ i → s.Rest j s') ∧ s.Moved i s'

theorem Contract.family_setup : Contract.Family Contract.setup where
  thread _ := rfl
  refl i s hs := ⟨hs, .refl i s⟩
  trans _ _ _ _ h h' hs :=
    have h1 := h hs
    have h2 := h' h1.1
    ⟨h2.1, h1.2.trans h2.2⟩
  compatible _ j _ _ hij h hs := ⟨(h hs).1, (h hs).2.1 j hij.symm⟩

namespace Scene

variable {i j : Nat} {n : ClassName} {s s' : Scene}

theorem Moved.of_passed (h : s'.passed = s.passed)
    (hs : ∀ n, s'.state n = s.state n ∨
      s.state n = uninitialized ∧ s'.state n = initializing ∨
      s.state n = initializing ∧ s'.state n = initialized) : s.Moved i s' where
  states := hs
  left _ hn := absurd (h.symm.trans hn) (List.cons_ne_self _ _).symm
  called _ hn := absurd (h.symm.trans hn) (List.cons_ne_self _ _).symm

theorem guarantee_neutral (h : s.Neutral s') : (Contract.setup i).guarantee s s' :=
  fun hs => ⟨h.coherent hs, fun j _ => h.rest j, .of_passed h.passed fun n => .inl (h.state n)⟩

section Signs

variable {x : Sign}

theorem loads_pass (i : Nat) (x : Sign) (s : Scene) : s.machine.Loads (s.pass i x).machine := by
  cases x with
  | noted e => exact Machine.loads_note _ e
  | _ => exact (Machine.Spares.refl _).loads

theorem state_pass (i : Nat) (x : Sign) (s : Scene) (n : ClassName) :
    (s.pass i x).state n = s.state n := by
  simp only [state, Machine.initState, (loads_pass i x s).initStates]

theorem owner_pass (i : Nat) (x : Sign) (s : Scene) : (s.pass i x).owner = s.owner := by
  rw [owner, (loads_pass i x s).lock, owner]

theorem calls_pass (i : Nat) (x : Sign) (s : Scene) (n : ClassName) :
    (s.pass i x).calls n = s.calls n + if x.isCall n then 1 else 0 :=
  List.countP_cons ..

theorem calls_pass_of_not {n : ClassName} (h : x.isCall n = false) :
    (s.pass i x).calls n = s.calls n := by
  rw [calls_pass, h]
  rfl

theorem spared_pass : (s.pass i x).Spared ↔ x.isFailure = false ∧ s.Spared :=
  List.forall_mem_cons

theorem eq_initializer_of_isCall {n : ClassName} (h : x.isCall n = true) : x = .initializer n := by
  cases x with
  | initializer c =>
    have hc : c = n := by simpa [Sign.isCall] using h
    rw [hc]
  | _ => cases h

theorem visit_pass {out : Option ClassName}
    (h : s.owner = some j → ∀ n, x = .initializer n → s.state n = initializing → some n = out) :
    s.Visit j out (s.pass i x) where
  libraries := (loads_pass i x s).libraries
  grows := (loads_pass i x s).classes.grows
  statics := (loads_pass i x s).statics
  started n hn := by rwa [state_pass]
  done n hn := by rwa [state_pass]
  lock _ := (loads_pass i x s).lock
  free ho := by rwa [owner_pass]
  busy _ n := by rw [state_pass]
  once ho n hn hne := by
    refine calls_pass_of_not (Bool.eq_false_iff.2 fun hx => hne ?_)
    exact h ho n (eq_initializer_of_isCall hx) hn
  passed := List.subset_cons_self _ _

theorem rest_pass (h : s.owner = some j → ∀ n, x ≠ .initializer n) : s.Rest j (s.pass i x) where
  visit := visit_pass fun ho n hx _ => absurd hx (h ho n)
  still _ n := state_pass i x s n

def Allows (i : Nat) (s : Scene) : Sign → Prop
  | .noted (.initialized n) => s.state n = initialized
  | .initializer n => s.Ready i n
  | .setUpLeft n => s.Left i n
  | _ => True

theorem allows_of_isNeutral (h : x.isNeutral = true) : s.Allows i x := by
  cases x with
  | noted e => cases e <;> trivial
  | _ => trivial

theorem Coherent.pass (hs : s.Coherent) (h : s.Allows i x) : (s.pass i x).Coherent where
  libraries := by
    rw [(loads_pass i x s).libraries]
    exact hs.libraries
  closed := by
    rw [(loads_pass i x s).libraries]
    exact (loads_pass i x s).classes.closed hs.closed
  depth l hl := hs.depth l ((loads_pass i x s).lock ▸ hl)
  busy n hn := by
    rw [state_pass] at hn
    obtain ⟨j, ho, hi⟩ := hs.busy n hn
    refine ⟨j, (owner_pass i x s).trans ho, List.mem_cons_of_mem _ hi.1, fun hm => ?_⟩
    rcases List.mem_cons.1 hm with he | hm
    · cases he
      rw [Allows, hn] at h
      cases h
    · exact hi.2 hm
  finished j n hm := by
    rw [state_pass]
    rcases List.mem_cons.1 hm with he | hm
    · cases he
      exact h
    · exact hs.finished j n hm
  calls_le n := by
    cases hx : x.isCall n with
    | true =>
      cases eq_initializer_of_isCall hx
      rw [calls_pass, hx, Ready.first h]
      exact Nat.le_refl 1
    | false =>
      rw [calls_pass_of_not hx]
      exact hs.calls_le n
  calls_zero n hn := by
    rw [state_pass] at hn
    rw [calls_pass_of_not]
    · exact hs.calls_zero n hn
    · refine Bool.eq_false_iff.2 fun hx => ?_
      cases eq_initializer_of_isCall hx
      have := Ready.state h
      rw [hn] at this
      cases this
  known n hn := by
    rw [state_pass] at hn
    obtain ⟨c, hc⟩ := Option.isSome_iff_exists.1 (hs.known n hn)
    exact Option.isSome_iff_exists.2 ⟨c, (loads_pass i x s).classes.grows n c hc⟩
  above hsp n c hc hn d hd := by
    rw [state_pass] at hn ⊢
    have hc' := found_of_grows hs (loads_pass i x s).classes.grows (by rw [hn]; exact nofun) hc
    exact hs.above (spared_pass.1 hsp).2 n c hc' hn d hd
  called hsp n c hc hn hm := by
    rw [state_pass] at hn
    have hc' := found_of_grows hs (loads_pass i x s).classes.grows (by rw [hn]; exact nofun) hc
    rw [calls_pass_of_not]
    · exact hs.called (spared_pass.1 hsp).2 n c hc' hn hm
    · refine Bool.eq_false_iff.2 fun hx => ?_
      cases eq_initializer_of_isCall hx
      cases (Ready.state h).symm.trans hn

theorem guarantee_pass (h : s.Allows i x) : (Contract.setup i).guarantee s (s.pass i x) := by
  have hp {y : Sign} (hy : (s.pass i x).passed = (i, y) :: s.passed) : x = y := by
    cases hy
    rfl
  refine fun hs => ⟨hs.pass h, fun j hj => rest_pass fun ho n hx => ?_, ?_⟩
  · subst hx
    exact hj (Option.some.inj (ho.symm.trans (Ready.owner h)))
  · refine ⟨fun n => .inl (state_pass i x s n), fun n hn => ?_, fun n hn => ?_⟩
    · cases hp hn
      exact h
    · cases hp hn
      exact h

end Signs

section Lock

def withLock (l : Option MachineLock) (s : Scene) : Scene :=
  s.become { s.machine with lock := l }

theorem rest_withLock {l : Option MachineLock} (h : s.owner ≠ some j)
    (hl : (s.withLock l).owner ≠ some j) : s.Rest j (s.withLock l) where
  visit :=
    { libraries := rfl
      grows := fun _ _ h => h
      statics := fun _ h => h
      started := fun _ h => h
      done := fun _ h => h
      lock := fun ho => absurd ho h
      free := fun _ => hl
      busy := fun _ _ => Iff.rfl
      once := fun _ _ _ _ => rfl
      passed := List.Subset.refl _ }
  still _ _ := rfl

theorem Coherent.take {d : Nat} (hs : s.Coherent) (hd : 1 ≤ d)
    (h : s.machine.lock = none ∨ s.owner = some i) : (s.withLock (some ⟨i, d⟩)).Coherent where
  libraries := hs.libraries
  closed := hs.closed
  depth l hl := by
    cases hl
    exact hd
  busy n hn := by
    obtain ⟨j, ho, hi⟩ := hs.busy n hn
    rcases h with h | h
    · rw [Scene.owner, h] at ho
      cases ho
    · cases h.symm.trans ho
      exact ⟨i, rfl, hi⟩
  finished := hs.finished
  calls_le := hs.calls_le
  calls_zero := hs.calls_zero
  known := hs.known
  above := hs.above
  called := hs.called

theorem Coherent.give (hs : s.Coherent) (h : ∀ n, s.state n ≠ initializing) :
    (s.withLock none).Coherent where
  libraries := hs.libraries
  closed := hs.closed
  depth _ hl := nomatch hl
  busy n hn := absurd hn (h n)
  finished := hs.finished
  calls_le := hs.calls_le
  calls_zero := hs.calls_zero
  known := hs.known
  above := hs.above
  called := hs.called

theorem guarantee_withLock {l : Option MachineLock} (h : s.machine.lock = none ∨ s.owner = some i)
    (hl : l.map (·.owner) = some i ∨ l = none) (hc : s.Coherent → (s.withLock l).Coherent) :
    (Contract.setup i).guarantee s (s.withLock l) := by
  refine fun hs => ⟨hc hs, fun j hj => rest_withLock ?_ ?_, .of_passed rfl fun _ => .inl rfl⟩
  · intro ho
    rcases h with h | h
    · rw [Scene.owner, h] at ho
      cases ho
    · exact hj (Option.some.inj (ho.symm.trans h))
  · intro ho
    change l.map (·.owner) = some j at ho
    rcases hl with hl | hl
    · exact hj (Option.some.inj (ho.symm.trans hl))
    · rw [hl] at ho
      cases ho

end Lock

section States

def setting (n : ClassName) (x : InitState) (s : Scene) : Scene :=
  s.become (s.machine.setInitState n x)

theorem state_setting (n k : ClassName) (x : InitState) (s : Scene) :
    (s.setting n x).state k = if n = k then x else s.state k := by
  simp only [state, setting, become, Machine.initState, Machine.setInitState, Entries.get?_put]
  split <;> rfl

theorem state_setting_self (n : ClassName) (x : InitState) (s : Scene) :
    (s.setting n x).state n = x := by
  rw [state_setting, if_pos rfl]

theorem state_setting_of_ne {n k : ClassName} (h : n ≠ k) (x : InitState) (s : Scene) :
    (s.setting n x).state k = s.state k := by
  rw [state_setting, if_neg h]

theorem started_setting {x : InitState} (hx : x ≠ uninitialized) {k : ClassName}
    (hk : s.state k ≠ uninitialized) : (s.setting n x).state k ≠ uninitialized := by
  rw [state_setting]
  split
  · exact hx
  · exact hk

theorem rest_setting {x : InitState} (hx : x ≠ uninitialized)
    (hd : s.state n = initialized → x = initialized) (h : s.owner ≠ some j) :
    s.Rest j (s.setting n x) where
  visit :=
    { libraries := rfl
      grows := fun _ _ h => h
      statics := fun _ h => h
      started := fun _ => started_setting hx
      done := fun k hk => by
        rw [state_setting]
        split
        · rename_i he
          subst he
          exact hd hk
        · exact hk
      lock := fun ho => absurd ho h
      free := fun _ => h
      busy := fun ho => absurd ho h
      once := fun ho => absurd ho h
      passed := List.Subset.refl _ }
  still ho := absurd ho h

theorem Coherent.begin (hs : s.Coherent) (hn : s.state n = uninitialized) (ho : s.owner = some i)
    (hi : (i, .noted (.initializing n)) ∈ s.passed) (hf : (s.found n).isSome = true) :
    (s.setting n initializing).Coherent where
  libraries := hs.libraries
  closed := hs.closed
  depth := hs.depth
  busy k hk := by
    by_cases hnk : n = k
    · subst hnk
      refine ⟨i, ho, hi, fun hm => ?_⟩
      have := hs.finished i n hm
      rw [hn] at this
      cases this
    · rw [state_setting_of_ne hnk] at hk
      exact hs.busy k hk
  finished j k hm := by
    have hk := hs.finished j k hm
    have hnk : n ≠ k := by
      rintro rfl
      rw [hn] at hk
      cases hk
    rw [state_setting_of_ne hnk, hk]
  calls_le := hs.calls_le
  calls_zero k hk := by
    have hnk : n ≠ k := by
      rintro rfl
      rw [state_setting_self] at hk
      cases hk
    rw [state_setting_of_ne hnk] at hk
    exact hs.calls_zero k hk
  known k hk := by
    by_cases hnk : n = k
    · exact hnk ▸ hf
    · rw [state_setting_of_ne hnk] at hk
      exact hs.known k hk
  above hsp k c hc hk d hd := by
    have hnk : n ≠ k := by
      rintro rfl
      rw [state_setting_self] at hk
      cases hk
    rw [state_setting_of_ne hnk] at hk
    have hx : initializing ≠ uninitialized := nofun
    exact started_setting hx (hs.above hsp k c hc hk d hd)
  called hsp k c hc hk hm := by
    have hnk : n ≠ k := by
      rintro rfl
      rw [state_setting_self] at hk
      cases hk
    rw [state_setting_of_ne hnk] at hk
    exact hs.called hsp k c hc hk hm

structure Whole (c : Class) (s : Scene) : Prop where
  above : ∀ d ∈ c.above true, s.state d.name ≠ uninitialized
  called : (c.declaredMethod? .staticInitializer (.void [])).isSome = true → s.calls c.name = 1

theorem Coherent.finish (hs : s.Coherent) (hn : s.state n = initializing)
    (ha : s.Spared → ∀ c, s.found n = some c → s.Whole c) : (s.setting n initialized).Coherent where
  libraries := hs.libraries
  closed := hs.closed
  depth := hs.depth
  busy k hk := by
    have hnk : n ≠ k := by
      rintro rfl
      rw [state_setting_self] at hk
      cases hk
    rw [state_setting_of_ne hnk] at hk
    exact hs.busy k hk
  finished j k hm := by
    by_cases hnk : n = k
    · rw [hnk, state_setting_self]
    · rw [state_setting_of_ne hnk]
      exact hs.finished j k hm
  calls_le := hs.calls_le
  calls_zero k hk := by
    have hnk : n ≠ k := by
      rintro rfl
      rw [state_setting_self] at hk
      cases hk
    rw [state_setting_of_ne hnk] at hk
    exact hs.calls_zero k hk
  known k hk := by
    by_cases hnk : n = k
    · subst hnk
      exact hs.known n (by rw [hn]; exact nofun)
    · rw [state_setting_of_ne hnk] at hk
      exact hs.known k hk
  above hsp k c hc hk d hd := by
    have hx : initialized ≠ uninitialized := nofun
    refine started_setting hx ?_
    by_cases hnk : n = k
    · subst hnk
      exact (ha hsp c hc).above d hd
    · rw [state_setting_of_ne hnk] at hk
      exact hs.above hsp k c hc hk d hd
  called hsp k c hc hk hm := by
    by_cases hnk : n = k
    · subst hnk
      have hname := hs.closed.name hc
      exact hname ▸ (ha hsp c hc).called hm
    · rw [state_setting_of_ne hnk] at hk
      exact hs.called hsp k c hc hk hm

theorem guarantee_begin (hn : s.state n = uninitialized) (ho : s.owner = some i)
    (hi : (i, .noted (.initializing n)) ∈ s.passed) (hf : (s.found n).isSome = true) :
    (Contract.setup i).guarantee s (s.setting n initializing) := by
  refine fun hs => ⟨hs.begin hn ho hi hf, fun j hj => ?_, .of_passed rfl fun k => ?_⟩
  · refine rest_setting nofun (fun h => ?_) fun h => hj (Option.some.inj (h.symm.trans ho))
    rw [hn] at h
    cases h
  · rw [state_setting]
    split
    · rename_i hk
      exact .inr (.inl ⟨hk ▸ hn, rfl⟩)
    · exact .inl rfl

theorem guarantee_finish (hn : s.state n = initializing) (ho : s.owner = some i)
    (ha : s.Spared → ∀ c, s.found n = some c → s.Whole c) :
    (Contract.setup i).guarantee s (s.setting n initialized) := by
  refine fun hs => ⟨hs.finish hn ha, fun j hj => ?_, .of_passed rfl fun k => ?_⟩
  · exact rest_setting nofun (fun _ => rfl) fun h => hj (Option.some.inj (h.symm.trans ho))
  · rw [state_setting]
    split
    · rename_i hk
      exact .inr (.inr ⟨hk ▸ hn, rfl⟩)
    · exact .inl rfl

end States

end Scene

end BytecodeMachine
