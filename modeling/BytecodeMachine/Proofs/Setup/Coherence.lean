import BytecodeMachine.Proofs.Construction
import BytecodeMachine.Proofs.Contract
import BytecodeMachine.Proofs.Interleaving

namespace BytecodeMachine

variable {α β : Type}

open InitState

namespace Sign

def isNeutral : Sign → Bool
  | .noted (.initialized _) => false
  | .initializer _ | .setUpFailed _ | .setUpLeft _ => false
  | _ => true

def isCall (n : ClassName) : Sign → Bool
  | .initializer c => c = n
  | _ => false

def isFailure : Sign → Bool
  | .setUpFailed _ => true
  | _ => false

theorem isNeutral_of_isPlain {x : Sign} (h : x.isPlain = true) : x.isNeutral = true := by
  cases x with
  | noted e =>
    cases e
    all_goals first
      | rfl
      | cases h
  | _ => cases h

end Sign

namespace Machine

structure Loads (m m' : Machine) : Prop where
  libraries : m'.libraries = m.libraries
  classes : ClassTable.Loaded m.libraries m.classes m'.classes
  initStates : m'.initStates = m.initStates
  lock : m'.lock = m.lock
  statics : ∀ k, (m.statics.get? k).isSome → (m'.statics.get? k).isSome

theorem Keeps.loads {m m' : Machine} (h : m.Keeps m') : m.Loads m' where
  libraries := h.libraries
  classes := by
    rw [h.classes]
    exact .refl
  initStates := h.initStates
  lock := h.lock
  statics := h.statics

theorem loads_note (m : Machine) (e : Event) : m.Loads (m.note e) := (spares_note e m).loads

theorem Loads.note {m m' : Machine} (h : m.Loads m') (e : Event) : m.Loads (m'.note e) :=
  ⟨h.libraries, h.classes, h.initStates, h.lock, h.statics⟩

theorem Loads.foldl_note {γ : Type} {m m' : Machine} (h : m.Loads m') (f : γ → Event)
    (l : List γ) : m.Loads (l.foldl (fun m a => m.note (f a)) m') := by
  induction l generalizing m' with
  | nil => exact h
  | cons a l ih => exact ih (h.note (f a))

theorem loads_resolve {res : List Library → Resolving α} {P : α → ClassTable → Prop}
    (h : ∀ libraries table, (res libraries).Keeps libraries P table) (m : Machine) :
    m.Loads (m.resolve res).2 := by
  refine Loads.foldl_note ?_ _ _
  exact ⟨rfl, (h m.libraries m.classes).1, rfl, rfl, fun _ hk => hk⟩

theorem classes_foldl_note {γ : Type} (f : γ → Event) (l : List γ) (m : Machine) :
    (l.foldl (fun m a => m.note (f a)) m).classes = m.classes := by
  induction l generalizing m with
  | nil => rfl
  | cons a l ih => exact ih (m.note (f a))

theorem of_resolve {res : List Library → Resolving α} {P : α → ClassTable → Prop}
    (h : ∀ libraries table, (res libraries).Keeps libraries P table) {m : Machine} {a : α}
    (ha : (m.resolve res).1 = .ok a) : P a (m.resolve res).2.classes := by
  have hc : (m.resolve res).2.classes = (res m.libraries m.classes).2 := classes_foldl_note _ _ _
  rw [hc]
  exact (h m.libraries m.classes).2 a ha

end Machine

namespace Scene

def state (s : Scene) (n : ClassName) : InitState := s.machine.initState n

def owner (s : Scene) : Option Nat := s.machine.lock.map (·.owner)

def found (s : Scene) (n : ClassName) : Option Class := s.machine.classes.get? n

def calls (s : Scene) (n : ClassName) : Nat := s.passed.countP (·.2.isCall n)

def Spared (s : Scene) : Prop := ∀ e ∈ s.passed, e.2.isFailure = false

def Inside (i : Nat) (n : ClassName) (s : Scene) : Prop :=
  (i, .noted (.initializing n)) ∈ s.passed ∧ (i, .noted (.initialized n)) ∉ s.passed

structure Coherent (s : Scene) : Prop where
  libraries : ∃ rest, s.machine.libraries = CoreLibrary.library :: rest
  closed : ClassTable.Closed s.machine.libraries s.machine.classes
  depth : ∀ l, s.machine.lock = some l → 1 ≤ l.depth
  busy : ∀ n, s.state n = initializing → ∃ i, s.owner = some i ∧ s.Inside i n
  finished : ∀ i n, (i, .noted (.initialized n)) ∈ s.passed → s.state n = initialized
  calls_le : ∀ n, s.calls n ≤ 1
  calls_zero : ∀ n, s.state n = uninitialized → s.calls n = 0
  known : ∀ n, s.state n ≠ uninitialized → (s.found n).isSome = true
  above : s.Spared → ∀ n c, s.found n = some c → s.state n = initialized →
    ∀ d ∈ c.above true, s.state d.name ≠ uninitialized
  called : s.Spared → ∀ n c, s.found n = some c → s.state n = initialized →
    (c.declaredMethod? .staticInitializer (.void [])).isSome = true → s.calls n = 1

-- What stays over a computation of a thread, with all that others do meanwhile. Only of the class
-- that is left out may the static initializer be called.
structure Visit (i : Nat) (out : Option ClassName) (s s' : Scene) : Prop where
  libraries : s'.machine.libraries = s.machine.libraries
  grows : ∀ n c, s.found n = some c → s'.found n = some c
  statics : ∀ k, (s.machine.statics.get? k).isSome → (s'.machine.statics.get? k).isSome
  started : ∀ n, s.state n ≠ uninitialized → s'.state n ≠ uninitialized
  done : ∀ n, s.state n = initialized → s'.state n = initialized
  lock : s.owner = some i → s'.machine.lock = s.machine.lock
  free : s.owner ≠ some i → s'.owner ≠ some i
  busy : s.owner = some i → ∀ n, s'.state n = initializing ↔ s.state n = initializing
  once : s.owner = some i → ∀ n, s.state n = initializing → some n ≠ out → s'.calls n = s.calls n
  passed : s.passed ⊆ s'.passed

theorem Visit.spared {i : Nat} {out : Option ClassName} {s s' : Scene} (h : s.Visit i out s')
    (hs : s'.Spared) : s.Spared :=
  fun e he => hs e (h.passed he)

structure Rest (i : Nat) (s s' : Scene) : Prop where
  visit : s.Visit i none s'
  still : s.owner = some i → ∀ n, s'.state n = s.state n

variable {i : Nat} {out : Option ClassName} {s s1 s2 s3 : Scene}

theorem Visit.refl (i : Nat) (out : Option ClassName) (s : Scene) : s.Visit i out s where
  libraries := rfl
  grows _ _ h := h
  statics _ h := h
  started _ h := h
  done _ h := h
  lock _ := rfl
  free h := h
  busy _ _ := Iff.rfl
  once _ _ _ _ := rfl
  passed := List.Subset.refl _

theorem Visit.owner (h : s1.Visit i out s2) (ho : s1.owner = some i) : s2.owner = some i := by
  rw [Scene.owner, h.lock ho]
  exact ho

theorem Visit.trans (h : s1.Visit i out s2) (h' : s2.Visit i out s3) : s1.Visit i out s3 where
  libraries := h'.libraries.trans h.libraries
  grows n c hc := h'.grows n c (h.grows n c hc)
  statics k hk := h'.statics k (h.statics k hk)
  started n hn := h'.started n (h.started n hn)
  done n hn := h'.done n (h.done n hn)
  lock ho := (h'.lock (h.owner ho)).trans (h.lock ho)
  free ho := h'.free (h.free ho)
  busy ho n := (h'.busy (h.owner ho) n).trans (h.busy ho n)
  once ho n hn hne :=
    (h'.once (h.owner ho) n ((h.busy ho n).2 hn) hne).trans (h.once ho n hn hne)
  passed := List.Subset.trans h.passed h'.passed

theorem Visit.except (h : s1.Visit i none s2) (out : Option ClassName) : s1.Visit i out s2 :=
  { h with once := fun ho n hn _ => h.once ho n hn nofun }

theorem Rest.refl (i : Nat) (s : Scene) : s.Rest i s := ⟨.refl i none s, fun _ _ => rfl⟩

theorem Rest.trans (h : s1.Rest i s2) (h' : s2.Rest i s3) : s1.Rest i s3 :=
  ⟨h.visit.trans h'.visit, fun ho n => (h'.still (h.visit.owner ho) n).trans (h.still ho n)⟩

structure Neutral (s s' : Scene) : Prop where
  loads : s.machine.Loads s'.machine
  passed : s'.passed = s.passed

theorem Neutral.state (h : s1.Neutral s2) (n : ClassName) : s2.state n = s1.state n := by
  simp only [Scene.state, Machine.initState, h.loads.initStates]

theorem Neutral.owner (h : s1.Neutral s2) : s2.owner = s1.owner := by
  rw [Scene.owner, h.loads.lock, Scene.owner]

theorem Neutral.calls (h : s1.Neutral s2) (n : ClassName) : s2.calls n = s1.calls n := by
  rw [Scene.calls, h.passed, Scene.calls]

theorem Neutral.rest (h : s1.Neutral s2) (i : Nat) : s1.Rest i s2 where
  visit :=
    { libraries := h.loads.libraries
      grows := h.loads.classes.grows
      statics := h.loads.statics
      started := fun n hn => by rwa [h.state]
      done := fun n hn => by rwa [h.state]
      lock := fun _ => h.loads.lock
      free := fun ho => by rwa [h.owner]
      busy := fun _ n => by rw [h.state]
      once := fun _ n _ _ => h.calls n
      passed := h.passed ▸ List.Subset.refl _ }
  still _ n := h.state n

theorem found_of_grows (hs : s1.Coherent) (hg : ∀ n c, s1.found n = some c → s2.found n = some c)
    {n : ClassName} {c : Class} (hn : s1.state n ≠ uninitialized) (hc : s2.found n = some c) :
    s1.found n = some c := by
  obtain ⟨d, hd⟩ := Option.isSome_iff_exists.1 (hs.known n hn)
  rw [hd, ← hc, hg n d hd]

theorem Neutral.coherent (h : s1.Neutral s2) (hs : s1.Coherent) : s2.Coherent where
  libraries := by
    rw [h.loads.libraries]
    exact hs.libraries
  closed := by
    rw [h.loads.libraries]
    exact h.loads.classes.closed hs.closed
  depth l hl := hs.depth l (h.loads.lock ▸ hl)
  busy n hn := by
    obtain ⟨i, ho, hi⟩ := hs.busy n (h.state n ▸ hn)
    refine ⟨i, h.owner.trans ho, ?_⟩
    rwa [Inside, h.passed]
  finished i n hm := (h.state n).trans (hs.finished i n (h.passed ▸ hm))
  calls_le n := by
    rw [h.calls]
    exact hs.calls_le n
  calls_zero n hn := by
    rw [h.calls]
    exact hs.calls_zero n (h.state n ▸ hn)
  known n hn := by
    obtain ⟨c, hc⟩ := Option.isSome_iff_exists.1 (hs.known n (h.state n ▸ hn))
    exact Option.isSome_iff_exists.2 ⟨c, h.loads.classes.grows n c hc⟩
  above hsp n c hc hn d hd := by
    rw [h.state] at hn ⊢
    have hc' := found_of_grows hs h.loads.classes.grows (by rw [hn]; exact nofun) hc
    rw [Spared, h.passed] at hsp
    exact hs.above hsp n c hc' hn d hd
  called hsp n c hc hn hm := by
    rw [h.state] at hn
    have hc' := found_of_grows hs h.loads.classes.grows (by rw [hn]; exact nofun) hc
    rw [Spared, h.passed] at hsp
    rw [h.calls]
    exact hs.called hsp n c hc' hn hm

end Scene

end BytecodeMachine
