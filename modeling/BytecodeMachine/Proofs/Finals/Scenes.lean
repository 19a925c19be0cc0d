import BytecodeMachine.Proofs.Setup.Passage
import BytecodeMachine.Proofs.Trail
import BytecodeMachine.Proofs.Typing.Acts

namespace BytecodeMachine

variable {α β : Type}

open InitState

namespace Machine

variable {m m' : Machine}

structure Learns (m m' : Machine) : Prop extends Loads m m' where
  values : m'.statics = m.statics

theorem Learns.refl (m : Machine) : m.Learns m := ⟨(Spares.refl m).loads, rfl⟩

theorem Spares.learns (h : m.Spares m') : m.Learns m' := ⟨h.loads, h.values⟩

theorem learns_resolve {res : List Library → Resolving α} {P : α → ClassTable → Prop}
    (h : ∀ libraries table, (res libraries).Keeps libraries P table) (m : Machine) :
    m.Learns (m.resolve res).2 :=
  ⟨loads_resolve h m, (rests_resolve h m).statics⟩

end Machine

def Sign.isStart : Sign → Bool
  | .noted (.initializing _) => true
  | _ => false

theorem Sign.isStart_of_isPlain {x : Sign} (h : x.isPlain = true) : x.isStart = false := by
  cases x with
  | noted e =>
    cases e
    all_goals first
      | rfl
      | cases h
  | _ => rfl

namespace Scene

def Recalled (n : ClassName) (s : Scene) : Prop :=
  ∃ i type pc ref before,
    (i, .noted (.step ⟨n, .staticInitializer, type⟩ pc (.putStatic ref))) :: before <:+ s.passed ∧
      ¬ { s with passed := before }.Inside i n

structure Sane (s : Scene) : Prop where
  closed : ClassTable.Closed s.machine.libraries s.machine.classes
  depth : ∀ l, s.machine.lock = some l → 1 ≤ l.depth

def Engaged (i : Nat) (s : Scene) : Prop :=
  ∀ n, s.Inside i n → s.state n = initializing ∧ s.owner = some i

structure Follows (i : Nat) (s s' : Scene) : Prop where
  grows : ∀ n c, s.found n = some c → s'.found n = some c
  states : s.owner = some i → ∀ n, s'.state n = s.state n
  own : s'.own i = s.own i
  passed : s.passed <:+ s'.passed

structure Undisturbed (i : Nat) (s s' : Scene) : Prop extends Follows i s s' where
  lock : s.owner = some i → s'.machine.lock = s.machine.lock

structure Abides (i : Nat) (s s' : Scene) : Prop where
  sane : s'.Sane
  grows : ∀ n c, s.found n = some c → s'.found n = some c
  lock : s.owner = some i → s'.machine.lock = s.machine.lock
  busy : s.owner = some i → ∀ n, s.state n = initializing → s'.state n = initializing
  inside : ∀ n, s'.Inside i n → s.Inside i n
  passed : s.passed <:+ s'.passed

structure Seals (s s' : Scene) : Prop where
  grows : ∀ n c, s.found n = some c → s'.found n = some c
  passed : s.passed <:+ s'.passed
  done : ∀ n, s.state n = initialized → s'.state n = initialized
  values : ∀ n c f, s.state n = initialized → s.found n = some c → f ∈ c.fields →
    f.isFinal = true → s'.Recalled n ∨ s'.machine.static f = s.machine.static f

variable {i j : Nat} {n : ClassName} {s s1 s2 s3 s' : Scene} {m : Machine} {x : Sign}

theorem inside_iff : s.Inside i n ↔
    .noted (.initializing n) ∈ s.own i ∧ .noted (.initialized n) ∉ s.own i := by
  simp [Inside, own]

theorem inside_of_own (h : s'.own i = s.own i) : s'.Inside i n ↔ s.Inside i n := by
  rw [inside_iff, h, inside_iff]

theorem Recalled.mono (h : s.Recalled n) (hp : s.passed <:+ s'.passed) : s'.Recalled n := by
  obtain ⟨i, type, pc, ref, before, hb, hn⟩ := h
  exact ⟨i, type, pc, ref, before, hb.trans hp, hn⟩

theorem owner_of_lock_eq (h : s'.machine.lock = s.machine.lock) : s'.owner = s.owner := by
  rw [owner, h, owner]

theorem Undisturbed.refl (i : Nat) (s : Scene) : s.Undisturbed i s :=
  ⟨⟨fun _ _ h => h, fun _ _ => rfl, rfl, List.suffix_refl _⟩, fun _ => rfl⟩

theorem Undisturbed.trans (h : s1.Undisturbed i s2) (h' : s2.Undisturbed i s3) :
    s1.Undisturbed i s3 where
  grows n c hc := h'.grows n c (h.grows n c hc)
  states ho n := (h'.states ((owner_of_lock_eq (h.lock ho)).trans ho) n).trans (h.states ho n)
  own := h'.own.trans h.own
  passed := h.passed.trans h'.passed
  lock ho := (h'.lock ((owner_of_lock_eq (h.lock ho)).trans ho)).trans (h.lock ho)

theorem Abides.refl (i : Nat) (hs : s.Sane) : s.Abides i s :=
  ⟨hs, fun _ _ h => h, fun _ => rfl, fun _ _ h => h, fun _ h => h, List.suffix_refl _⟩

theorem Abides.owner (h : s1.Abides i s2) (ho : s1.owner = some i) : s2.owner = some i :=
  (owner_of_lock_eq (h.lock ho)).trans ho

theorem Abides.trans (h : s1.Abides i s2) (h' : s2.Abides i s3) : s1.Abides i s3 where
  sane := h'.sane
  grows n c hc := h'.grows n c (h.grows n c hc)
  lock ho := (h'.lock (h.owner ho)).trans (h.lock ho)
  busy ho n hn := h'.busy (h.owner ho) n (h.busy ho n hn)
  inside n hn := h.inside n (h'.inside n hn)
  passed := h.passed.trans h'.passed

theorem Abides.engaged (h : s.Abides i s') (hs : s.Engaged i) : s'.Engaged i := by
  intro n hn
  obtain ⟨hi, ho⟩ := hs n (h.inside n hn)
  exact ⟨h.busy ho n hi, h.owner ho⟩

theorem Undisturbed.abides (h : s.Undisturbed i s') (hs : s'.Sane) : s.Abides i s' where
  sane := hs
  grows := h.grows
  lock := h.lock
  busy ho n hn := (h.states ho n).trans hn
  inside _ := (inside_of_own h.own).1
  passed := h.passed

theorem Seals.of_values (hg : ∀ n c, s.found n = some c → s'.found n = some c)
    (hp : s.passed <:+ s'.passed) (hd : ∀ n, s.state n = initialized → s'.state n = initialized)
    (hv : s'.machine.statics = s.machine.statics) : s.Seals s' where
  grows := hg
  passed := hp
  done := hd
  values _ _ f _ _ _ _ := .inr (by rw [Machine.static, hv, Machine.static])

end Scene

def Contract.sealing (i : Nat) : Contract where
  thread := i
  rely s s' := s.Sane → s'.Sane ∧ s.Undisturbed i s'
  guarantee s s' := s.Sane → s'.Sane ∧ (∀ j, j ≠ i → s.Undisturbed j s') ∧ s.Seals s'

theorem Contract.family_sealing : Contract.Family Contract.sealing where
  thread _ := rfl
  refl i s hs := ⟨hs, .refl i s⟩
  trans _ _ _ _ h h' hs :=
    have h1 := h hs
    have h2 := h' h1.1
    ⟨h2.1, h1.2.trans h2.2⟩
  compatible _ j _ _ hij h hs := ⟨(h hs).1, (h hs).2.1 j hij.symm⟩

namespace Scene

variable {i j d : Nat} {n : ClassName} {s s1 s2 s' : Scene} {m : Machine} {x : Sign}

theorem Sane.loads (hs : s.Sane) (h : s.machine.Loads m) : (s.become m).Sane where
  closed := by
    change ClassTable.Closed m.libraries m.classes
    rw [h.libraries]
    exact h.classes.closed hs.closed
  depth l hl := hs.depth l (h.lock ▸ hl)

theorem undisturbed_of_loads (h : s.machine.Loads m) : s.Undisturbed i (s.become m) where
  grows := h.classes.grows
  states _ n := by simp only [state, become, Machine.initState, h.initStates]
  own := rfl
  passed := List.suffix_refl _
  lock _ := h.lock

theorem Abides.loads (h : s1.Abides i s2) (hl : s2.machine.Loads m) : s1.Abides i (s2.become m) :=
  h.trans ((undisturbed_of_loads hl).abides (h.sane.loads hl))

theorem sealing_learns (h : s.machine.Learns m) :
    (Contract.sealing i).guarantee s (s.become m) := by
  refine fun hs => ⟨hs.loads h.toLoads, fun j _ => undisturbed_of_loads h.toLoads, ?_⟩
  refine .of_values h.classes.grows (List.suffix_refl _) (fun n hn => ?_) h.values
  exact hn ▸ congrArg (fun l => (Entries.get? l n).getD uninitialized) h.initStates

theorem learns_pass (i : Nat) (x : Sign) (s : Scene) :
    s.machine.Learns (s.pass i x).machine := by
  cases x with
  | noted e => exact (Machine.spares_note e s.machine).learns
  | _ => exact .refl _

theorem Sane.pass (hs : s.Sane) (i : Nat) (x : Sign) : (s.pass i x).Sane :=
  have h := hs.loads (loads_pass i x s)
  ⟨h.closed, h.depth⟩

theorem sealing_pass : (Contract.sealing i).guarantee s (s.pass i x) := by
  have hl := learns_pass i x s
  refine fun hs => ⟨hs.pass i x, fun j hj => ?_, ?_⟩
  · exact ⟨⟨hl.classes.grows, fun _ n => state_pass i x s n, own_pass_of_ne hj,
      List.suffix_cons _ _⟩, fun _ => hl.lock⟩
  · refine .of_values hl.classes.grows (List.suffix_cons _ _) (fun n hn => ?_) hl.values
    exact (state_pass i x s n).trans hn

theorem inside_pass (hx : x ≠ .noted (.initializing n)) (h : (s.pass i x).Inside i n) :
    s.Inside i n := by
  refine ⟨(List.mem_cons.1 h.1).resolve_left fun he => hx ?_, fun hm => ?_⟩
  · exact (Prod.mk.inj he).2.symm
  · exact h.2 (List.mem_cons_of_mem _ hm)

theorem abides_pass (hs : s.Sane) (hx : x.isStart = false) : s.Abides i (s.pass i x) where
  sane := hs.pass i x
  grows := (learns_pass i x s).classes.grows
  lock _ := (learns_pass i x s).lock
  busy _ n hn := (state_pass i x s n).trans hn
  inside n := inside_pass (by rintro rfl; cases hx)
  passed := List.suffix_cons _ _

section Lock

theorem Sane.withLock (hs : s.Sane) {l : Option MachineLock} (hl : ∀ k, l = some k → 1 ≤ k.depth) :
    (s.withLock l).Sane :=
  ⟨hs.closed, hl⟩

theorem follows_withLock (i : Nat) (l : Option MachineLock) (s : Scene) :
    s.Follows i (s.withLock l) :=
  ⟨fun _ _ h => h, fun _ _ => rfl, rfl, List.suffix_refl _⟩

theorem sealing_withLock {l : Option MachineLock} (h : s.machine.lock = none ∨ s.owner = some i)
    (hl : s.Sane → ∀ k, l = some k → 1 ≤ k.depth) :
    (Contract.sealing i).guarantee s (s.withLock l) := by
  refine fun hs => ⟨hs.withLock (hl hs), fun j hj => ⟨follows_withLock j l s, fun ho => ?_⟩, ?_⟩
  · rcases h with h | h
    · rw [owner, h] at ho
      cases ho
    · exact absurd (Option.some.inj (ho.symm.trans h)) hj
  · exact .of_values (fun _ _ h => h) (List.suffix_refl _) (fun _ h => h) rfl

end Lock

section States

theorem sealing_setting {y : InitState} (ho : s.owner = some i)
    (hy : s.state n = initialized → y = initialized) :
    (Contract.sealing i).guarantee s (s.setting n y) := by
  refine fun hs => ⟨⟨hs.closed, hs.depth⟩, fun j hj => ?_, ?_⟩
  · have hne (hj' : s.owner = some j) : False := hj (Option.some.inj (hj'.symm.trans ho))
    exact ⟨⟨fun _ _ h => h, fun h => (hne h).elim, rfl, List.suffix_refl _⟩, fun h => (hne h).elim⟩
  · refine .of_values (fun _ _ h => h) (List.suffix_refl _) (fun k hk => ?_) rfl
    rw [state_setting]
    split
    · rename_i he
      exact hy (he ▸ hk)
    · exact hk

end States

section Fields

variable {f : Field} {v : Value}

structure Writable (i : Nat) (f : Field) (s : Scene) : Prop where
  placed : ∃ c, s.found f.owner = some c ∧ f ∈ c.fields
  granted : f.isFinal = true →
    s.Recalled f.owner ∨ s.state f.owner = initializing ∧ s.owner = some i

theorem Writable.abides (h : s.Writable i f) (ha : s.Abides i s') : s'.Writable i f where
  placed := h.placed.imp fun _ hc => hc.imp_left (ha.grows _ _)
  granted hf := (h.granted hf).imp (·.mono ha.passed) fun hn => ⟨ha.busy hn.2 _ hn.1, ha.owner hn.2⟩

theorem Writable.follows (h : s.Writable i f) (hf : s.Follows i s') (ho : s'.owner = some i) :
    s'.Writable i f where
  placed := h.placed.imp fun _ hc => hc.imp_left (hf.grows _ _)
  granted hfin := (h.granted hfin).imp (·.mono hf.passed) fun hn =>
    ⟨(hf.states hn.2 _).trans hn.1, ho⟩

theorem static_setStatic {g : Field} (h : ¬ (f.owner = g.owner ∧ f.index = g.index)) (m : Machine) :
    (m.setStatic f v).static g = m.static g := by
  have hne : ¬ (f.owner, f.index) = (g.owner, g.index) := by simpa using h
  simp only [Machine.static, Machine.setStatic, Entries.get?_put, if_neg hne]

theorem undisturbed_setStatic (i : Nat) (f : Field) (v : Value) (s : Scene) :
    s.Undisturbed i (s.become (s.machine.setStatic f v)) :=
  ⟨⟨fun _ _ h => h, fun _ _ => rfl, rfl, List.suffix_refl _⟩, fun _ => rfl⟩

theorem Writable.sealing (h : s.Writable i f) :
    (Contract.sealing i).guarantee s (s.become (s.machine.setStatic f v)) := by
  refine fun hs => ⟨⟨hs.closed, hs.depth⟩, fun j _ => undisturbed_setStatic j f v s, ?_⟩
  refine ⟨fun _ _ h => h, List.suffix_refl _, fun _ h => h, fun n c g hn hc hg hfin => ?_⟩
  by_cases hp : f.owner = g.owner ∧ f.index = g.index
  · obtain ⟨d, hd, hf⟩ := h.placed
    have hgo : g.owner = n := (hs.closed.placed hc).owner g hg
    rw [hp.1, hgo] at hd
    cases hc.symm.trans hd
    cases (hs.closed.placed hc).index f hf g hg hp.2
    rcases h.granted hfin with hr | hi
    · exact .inl (hgo ▸ hr.mono (List.suffix_refl _))
    · rw [hgo, hn] at hi
      cases hi.1
  · exact .inr (static_setStatic hp _)

end Fields

end Scene

end BytecodeMachine
