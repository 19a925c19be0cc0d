import BytecodeMachine.Proofs.Interleaving
import BytecodeMachine.Proofs.ThreadRecords

namespace BytecodeMachine

inductive RegistryCall where
  | exit (code : Int32)
  | newThread (name : String)

def RegistryCall.on : RegistryCall → Prog Unit
  | exit code => Prog.exit code
  | newThread name => do
      let _ ← Prog.newThread name

-- Where a call stands: what it does next. A call is over when it has nobody left to tell.
inductive RegistryPhase where
  | recording (code : Int32)
  | pausing
  | listing
  | telling (ids : List Nat)
  | flagging (id : Nat) (ids : List Nat)
  | numbering (name : String)
  | looking (id : Nat) (name : String)
  | yielding (id : Nat) (name : String) (exiting : Bool)
  | registering (id : Nat) (name : String) (exiting : Bool)

inductive RegistryEvent where
  | recorded (code : Int32)
  | listed (ids : List Nat)
  | looked (id : Nat)
  | registered (id : Nat)

namespace RegistryPhase

def newRecord (id : Nat) (name : String) (exiting : Bool) : ThreadRecord :=
  { ThreadRecord.start id name with terminate := exiting }

def rest : RegistryPhase → Prog Unit
  | recording code => Prog.exit code
  | pausing => do
      Prog.turn
      Prog.tellAll (← Prog.read (·.threadIds))
  | listing => do Prog.tellAll (← Prog.read (·.threadIds))
  | telling ids => Prog.tellAll ids
  | flagging id ids => do
      Prog.update (·.tellToEnd id)
      Prog.tellAll ids
  | numbering name => RegistryCall.on (.newThread name)
  | looking id name => do
      let exiting ← Prog.read (·.exitStatus.isSome)
      Prog.turn
      Prog.update (·.register (newRecord id name exiting))
  | yielding id name exiting => do
      Prog.turn
      Prog.update (·.register (newRecord id name exiting))
  | registering id name exiting => Prog.update (·.register (newRecord id name exiting))

def after (m : Machine) : RegistryPhase → RegistryPhase
  | recording _ => pausing
  | pausing => listing
  | listing => telling m.threadIds
  | telling (id :: ids) => flagging id ids
  | telling [] => telling []
  | flagging _ ids => telling ids
  | numbering name => looking m.nextThread name
  | looking id name => yielding id name m.exitStatus.isSome
  | yielding id name exiting => registering id name exiting
  | registering _ _ _ => telling []

def effect (m : Machine) : RegistryPhase → Machine
  | recording code => m.recordExit code
  | flagging id _ => m.tellToEnd id
  | numbering _ => m.takeThreadId.2
  | registering id name exiting => m.register (newRecord id name exiting)
  | _ => m

def event? (m : Machine) : RegistryPhase → Option RegistryEvent
  | recording code => some (.recorded code)
  | listing => some (.listed m.threadIds)
  | looking id _ => some (.looked id)
  | registering id _ _ => some (.registered id)
  | _ => none

def start : RegistryCall → RegistryPhase
  | .exit code => recording code
  | .newThread name => numbering name

theorem rest_start (c : RegistryCall) : (start c).rest = c.on := by
  cases c <;> rfl

variable {i : Nat} {s s' : Scene}

theorem after_of_moves {ph : RegistryPhase} {q : Prog Unit} (hm : ph.rest.Moves i s q s') :
    q = (ph.after s.machine).rest ∧ s' = s.become (ph.effect s.machine) := by
  cases ph with
  | pausing =>
    cases hm with
    | wait next ha =>
      cases ha
      exact ⟨rfl, rfl⟩
  | yielding id name exiting =>
    cases hm with
    | wait next ha =>
      cases ha
      exact ⟨rfl, rfl⟩
  | telling ids =>
    cases ids with
    | nil => cases hm
    | cons id ids =>
      cases hm with
      | wait next ha =>
        cases ha
        exact ⟨rfl, rfl⟩
  | _ =>
    cases hm
    exact ⟨rfl, rfl⟩

theorem moves_after {ph : RegistryPhase} (h : ph ≠ telling []) (i : Nat) (s : Scene) :
    ph.rest.Moves i s (ph.after s.machine).rest (s.become (ph.effect s.machine)) := by
  have hm : ∃ q s', ph.rest.Moves i s q s' := by
    cases ph with
    | pausing => exact ⟨_, _, .wait _ rfl⟩
    | yielding id name exiting => exact ⟨_, _, .wait _ rfl⟩
    | telling ids =>
      cases ids with
      | nil => exact absurd rfl h
      | cons id ids => exact ⟨_, _, .wait _ rfl⟩
    | _ => exact ⟨_, _, .step _ _ _⟩
  obtain ⟨q, s', hm⟩ := hm
  obtain ⟨rfl, rfl⟩ := after_of_moves hm
  exact hm

end RegistryPhase

abbrev RegistryHistory := List RegistryEvent

namespace RegistryHistory

def code? : RegistryEvent → Option Int32
  | .recorded code => some code
  | _ => none

def status? (h : RegistryHistory) : Option Int32 := (h.filterMap code?).getLast?

-- A thread was looked after before the first exit was recorded, and registered after the registry was
-- listed for the last time.
def Misses (id : Nat) (h : RegistryHistory) : Prop :=
  ∃ late middle early : RegistryHistory,
    h = late ++ .registered id :: middle ++ .looked id :: early ∧
      (∀ ids, .listed ids ∉ late) ∧ ∀ code, .recorded code ∉ early

variable {id : Nat} {h : RegistryHistory} {e : RegistryEvent}

theorem Misses.cons (hm : Misses id h) (he : ∀ ids, e ≠ .listed ids) : Misses id (e :: h) := by
  obtain ⟨late, middle, early, rfl, hl, hr⟩ := hm
  refine ⟨e :: late, middle, early, rfl, fun ids hi => ?_, hr⟩
  rcases List.mem_cons.1 hi with hi | hi
  · exact he ids hi.symm
  · exact hl ids hi

theorem status?_cons (e : RegistryEvent) (h : RegistryHistory) :
    status? (e :: h) = (status? h).or (code? e) := by
  cases e <;> simp [status?, code?, List.filterMap_cons, List.getLast?_cons]

theorem not_recorded (hs : status? h = none) (code : Int32) : .recorded code ∉ h := by
  intro hr
  have hn : h.filterMap code? = [] := List.getLast?_eq_none_iff.1 hs
  exact absurd (List.filterMap_eq_nil_iff.1 hn _ hr) (by simp [code?])

end RegistryHistory

structure Registrar where
  phases : Nat → Option RegistryPhase
  history : RegistryHistory

-- Calls and their moves. Outside of them threads may change and be forgotten, but none is registered,
-- told to end or told the contrary.
inductive Registrar.Step : Registrar × Scene → Registrar × Scene → Prop
  | call {g : Registrar} {s : Scene} (i : Nat) (c : RegistryCall) (h : g.phases i = none) :
      Step (g, s) ({ g with phases := Function.update g.phases i (some (.start c)) }, s)
  | move {g : Registrar} {s s' : Scene} {ph : RegistryPhase} {q : Prog Unit} (i : Nat)
      (hp : g.phases i = some ph) (hm : ph.rest.Moves i s q s') :
      Step (g, s) (⟨Function.update g.phases i (some (ph.after s.machine)),
        (ph.event? s.machine).toList ++ g.history⟩, s')
  | outside {g : Registrar} {s : Scene} {m : Machine}
      (hx : m.exitStatus = s.machine.exitStatus)
      (ht : ∀ id r, m.record? id = some r →
        ∃ r', s.machine.record? id = some r' ∧ r.terminate = r'.terminate) :
      Step (g, s) (g, s.become m)

abbrev Registrar.Run : Registrar × Scene → Registrar × Scene → Prop :=
  Relation.ReflTransGen Registrar.Step

def Registrar.fresh : Registrar := ⟨fun _ => none, []⟩

namespace RegistryPhase

def Reaches (id : Nat) : RegistryPhase → Prop
  | pausing => True
  | listing => True
  | telling ids => id ∈ ids
  | flagging id' ids => id = id' ∨ id ∈ ids
  | _ => False

def Looked (h : RegistryHistory) : RegistryPhase → Prop
  | yielding id _ exiting => exiting = false → ∃ late early : RegistryHistory,
      h = late ++ .looked id :: early ∧ ∀ code, .recorded code ∉ early
  | registering id _ exiting => exiting = false → ∃ late early : RegistryHistory,
      h = late ++ .looked id :: early ∧ ∀ code, .recorded code ∉ early
  | _ => True

theorem Looked.append {ph : RegistryPhase} {h : RegistryHistory} (hl : ph.Looked h)
    (new : RegistryHistory) : ph.Looked (new ++ h) := by
  cases ph with
  | yielding id name exiting =>
    intro he
    obtain ⟨late, early, rfl, hr⟩ := hl he
    exact ⟨new ++ late, early, (List.append_assoc ..).symm, hr⟩
  | registering id name exiting =>
    intro he
    obtain ⟨late, early, rfl, hr⟩ := hl he
    exact ⟨new ++ late, early, (List.append_assoc ..).symm, hr⟩
  | _ => trivial

end RegistryPhase

def Registrar.Pursues (g : Registrar) (id : Nat) : Prop :=
  ∃ i ph, g.phases i = some ph ∧ ph.Reaches id

structure Registrar.Kept (g : Registrar) (s : Scene) : Prop where
  status : s.machine.exitStatus = g.history.status?
  looked : ∀ i ph, g.phases i = some ph → ph.Looked g.history
  told : s.machine.exitStatus.isSome → ∀ id r, s.machine.record? id = some r →
    r.terminate = true ∨ g.Pursues id ∨ g.history.Misses id

theorem Machine.exitStatus_recordExit (code : Int32) (m : Machine) :
    (m.recordExit code).exitStatus = m.exitStatus.or (some code) := by
  unfold recordExit
  split
  · rename_i h
    simp [h]
  · rename_i first h
    split <;> simp [h, note]

namespace RegistryPhase

variable {ph : RegistryPhase} {m : Machine}

theorem exitStatus_effect (ph : RegistryPhase) (m : Machine) :
    (ph.effect m).exitStatus = m.exitStatus.or ((ph.event? m).bind RegistryHistory.code?) := by
  cases ph with
  | recording code => exact Machine.exitStatus_recordExit code m
  | _ => simp [effect, event?, RegistryHistory.code?, Machine.tellToEnd, Machine.modifyRecord,
      Machine.takeThreadId, Machine.register, Machine.note]

end RegistryPhase

namespace Registrar.Kept

variable {g : Registrar} {s s' : Scene} {i : Nat} {ph : RegistryPhase} {q : Prog Unit}

theorem pursues_update {id : Nat} (hp : g.phases i = some ph) {ph' : RegistryPhase}
    {h : RegistryHistory} (hr : ph.Reaches id → ph'.Reaches id) (hg : g.Pursues id) :
    Registrar.Pursues ⟨Function.update g.phases i (some ph'), h⟩ id := by
  obtain ⟨j, ph'', hj, hid⟩ := hg
  by_cases hji : j = i
  · subst hji
    obtain rfl : ph = ph'' := Option.some.inj (hp.symm.trans hj)
    exact ⟨j, ph', Function.update_self .., hr hid⟩
  · exact ⟨j, ph'', (Function.update_of_ne hji ..).trans hj, hid⟩

theorem misses_move {id : Nat} {m : Machine} (hl : ∀ ids, ph.event? m ≠ some (.listed ids))
    (hm : g.history.Misses id) :
    RegistryHistory.Misses id ((ph.event? m).toList ++ g.history) := by
  cases he : ph.event? m with
  | none => exact hm
  | some e => exact hm.cons fun ids h => hl ids (he.trans (congrArg some h))

theorem told_of_told (h : Registrar.Kept g s) (hp : g.phases i = some ph) {id : Nat}
    {r : ThreadRecord} (hx : s.machine.exitStatus.isSome) (hr : s.machine.record? id = some r)
    (hl : ∀ ids, ph.event? s.machine ≠ some (.listed ids))
    (ha : ph.Reaches id → (ph.after s.machine).Reaches id) :
    r.terminate = true ∨
      Registrar.Pursues ⟨Function.update g.phases i (some (ph.after s.machine)),
        (ph.event? s.machine).toList ++ g.history⟩ id ∨
      RegistryHistory.Misses id ((ph.event? s.machine).toList ++ g.history) :=
  (h.told hx id r hr).imp_right fun ht =>
    ht.imp (pursues_update hp ha) (misses_move hl)

theorem told_move (h : Registrar.Kept g s) (hp : g.phases i = some ph) (ho : ph ≠ .telling [])
    {id : Nat} {r : ThreadRecord} (hx : (ph.effect s.machine).exitStatus.isSome)
    (hr : (ph.effect s.machine).record? id = some r) :
    r.terminate = true ∨
      Registrar.Pursues ⟨Function.update g.phases i (some (ph.after s.machine)),
        (ph.event? s.machine).toList ++ g.history⟩ id ∨
      RegistryHistory.Misses id ((ph.event? s.machine).toList ++ g.history) := by
  have own {ph' : RegistryPhase} {l : RegistryHistory} (ha : ph'.Reaches id) :
      Registrar.Pursues ⟨Function.update g.phases i (some ph'), l⟩ id :=
    ⟨i, ph', Function.update_self .., ha⟩
  cases ph with
  | recording code => exact .inr (.inl (own trivial))
  | pausing => exact .inr (.inl (own trivial))
  | listing =>
    refine .inr (.inl (own ?_))
    exact Machine.mem_threadIds.2 (by rw [show s.machine.record? id = some r from hr]; rfl)
  | telling ids =>
    cases ids with
    | nil => exact absurd rfl ho
    | cons id' ids => exact h.told_of_told hp hx hr (by rintro _ ⟨⟩) List.mem_cons.1
  | flagging id' ids =>
    simp only [RegistryPhase.effect, Machine.tellToEnd, Machine.record?_modifyRecord] at hr
    split at hr
    · obtain ⟨r', -, rfl⟩ := Option.map_eq_some_iff.1 hr
      exact .inl rfl
    · rename_i hne
      refine h.told_of_told hp hx hr (by rintro _ ⟨⟩) ?_
      exact fun hid => hid.resolve_left fun he => hne he.symm
  | numbering name => exact h.told_of_told hp hx hr (by rintro _ ⟨⟩) False.elim
  | looking id' name => exact h.told_of_told hp hx hr (by rintro _ ⟨⟩) False.elim
  | yielding id' name exiting => exact h.told_of_told hp hx hr (by rintro _ ⟨⟩) False.elim
  | registering id' name exiting =>
    simp only [RegistryPhase.effect, Machine.record?_register] at hr
    split at hr
    · rename_i he
      obtain rfl : id' = id := he
      cases hr
      cases exiting with
      | true => exact .inl rfl
      | false =>
        obtain ⟨late, early, hh, hn⟩ := h.looked i _ hp rfl
        refine .inr (.inr ⟨[], late, early, ?_, by simp, hn⟩)
        simp [RegistryPhase.event?, hh]
    · exact h.told_of_told hp hx hr (by rintro _ ⟨⟩) False.elim

theorem looked_move (h : Registrar.Kept g s) (hp : g.phases i = some ph) :
    (ph.after s.machine).Looked ((ph.event? s.machine).toList ++ g.history) := by
  cases ph with
  | looking id name =>
    intro he
    have hn : g.history.status? = none := by
      rw [← h.status]
      exact Option.isSome_eq_false_iff.1 he |> Option.isNone_iff_eq_none.1
    exact ⟨[], g.history, rfl, RegistryHistory.not_recorded hn⟩
  | yielding id name exiting => exact (h.looked i _ hp).append _
  | telling ids => cases ids <;> trivial
  | _ => trivial

theorem move (h : Registrar.Kept g s) (hp : g.phases i = some ph) (hm : ph.rest.Moves i s q s') :
    Registrar.Kept ⟨Function.update g.phases i (some (ph.after s.machine)),
      (ph.event? s.machine).toList ++ g.history⟩ s' := by
  have ho : ph ≠ .telling [] := by
    rintro rfl
    cases hm
  obtain ⟨-, rfl⟩ := RegistryPhase.after_of_moves hm
  constructor
  case status =>
    refine (ph.exitStatus_effect s.machine).trans ?_
    rw [h.status]
    cases ph.event? s.machine with
    | none => simp
    | some e => exact (RegistryHistory.status?_cons e g.history).symm
  case looked =>
    intro j ph' hj
    by_cases hji : j = i
    · subst hji
      simp only [Function.update_self, Option.some.injEq] at hj
      exact hj ▸ h.looked_move hp
    · exact (h.looked j ph' ((Function.update_of_ne hji ..).symm.trans hj)).append _
  case told => exact fun hx id r hr => h.told_move hp ho hx hr

theorem step {c c' : Registrar × Scene} (h : Registrar.Kept c.1 c.2)
    (hs : Registrar.Step c c') : Registrar.Kept c'.1 c'.2 := by
  cases hs with
  | @call g s i c hn =>
    refine ⟨h.status, fun j ph hj => ?_, fun hx id r hr => ?_⟩
    · by_cases hji : j = i
      · subst hji
        simp only [Function.update_self, Option.some.injEq] at hj
        subst hj
        cases c <;> trivial
      · exact h.looked j ph ((Function.update_of_ne hji ..).symm.trans hj)
    · refine (h.told hx id r hr).imp_right (Or.imp_left ?_)
      rintro ⟨j, ph, hj, hid⟩
      have hji : j ≠ i := by
        rintro rfl
        cases hn.symm.trans hj
      exact ⟨j, ph, (Function.update_of_ne hji ..).trans hj, hid⟩
  | move i hp hm => exact h.move hp hm
  | outside hx ht =>
    refine ⟨hx.trans h.status, h.looked, fun hy id r hr => ?_⟩
    obtain ⟨r', hr', he⟩ := ht id r hr
    exact he ▸ h.told (hx ▸ hy) id r' hr'

theorem fresh (hx : s.machine.exitStatus = none) : Registrar.Kept .fresh s where
  status := hx
  looked i ph hp := by cases hp
  told hs := by simp [hx] at hs

theorem run {c c' : Registrar × Scene} (h : Registrar.Kept c.1 c.2) (hr : Registrar.Run c c') :
    Registrar.Kept c'.1 c'.2 := by
  induction hr with
  | refl => exact h
  | tail _ hs ih => exact ih.step hs

end Registrar.Kept

theorem Registrar.Step.exitStatus {c c' : Registrar × Scene} (hs : Registrar.Step c c')
    {code : Int32} (hx : c.2.machine.exitStatus = some code) :
    c'.2.machine.exitStatus = some code := by
  cases hs with
  | call => exact hx
  | move i hp hm =>
    obtain ⟨-, rfl⟩ := RegistryPhase.after_of_moves hm
    refine (RegistryPhase.exitStatus_effect _ _).trans ?_
    rw [hx, Option.some_or]
  | outside hy => exact hy.trans hx

theorem RegistryPhase.eq_of_rest {ph : RegistryPhase} (h : ph.rest = .done ()) :
    ph = telling [] := by
  by_contra hn
  have hm := moves_after hn 0 ⟨.create [] .standard .standard .sound .sound (.ofVerbosity none), []⟩
  rw [h] at hm
  cases hm

structure Registrar.Settled (g : Registrar) (s : Scene) : Prop where
  status : s.machine.exitStatus = g.history.status?
  stays : ∀ code g' s', s.machine.exitStatus = some code → Registrar.Run (g, s) (g', s') →
    s'.machine.exitStatus = some code
  told : (∀ i ph, g.phases i = some ph → ph.rest = .done ()) → s.machine.exitStatus.isSome →
    ∀ id ∈ s.machine.threadIds, s.machine.shouldTerminate id ∨ g.history.Misses id

theorem Registrar.settled_of_run {s : Scene} (hx : s.machine.exitStatus = none) {g : Registrar}
    {s' : Scene} (hr : Registrar.Run (.fresh, s) (g, s')) :
    (∀ c : RegistryCall, (RegistryPhase.start c).rest = c.on) ∧ Registrar.Settled g s' := by
  have h := (Kept.fresh hx).run hr
  refine ⟨RegistryPhase.rest_start, h.status, fun code g' s'' hc hr' => ?_, fun ho hs id hid => ?_⟩
  · generalize hd : (g', s'') = d at hr'
    induction hr' generalizing g' s'' with
    | refl =>
      cases hd
      exact hc
    | tail _ hs ih =>
      subst hd
      exact hs.exitStatus (ih _ _ rfl)
  · obtain ⟨r, hr⟩ := Option.isSome_iff_exists.1 (Machine.mem_threadIds.1 hid)
    rcases h.told hs id r hr with ht | ⟨i, ph, hp, ha⟩ | hm
    · exact .inl (by simp [Machine.shouldTerminate, hr, ht])
    · rw [RegistryPhase.eq_of_rest (ho i ph hp)] at ha
      cases ha
    · exact .inr hm

theorem Registrar.Run.advance {c : Registrar × Scene} {g : Registrar} {s : Scene}
    (hr : Registrar.Run c (g, s)) (i : Nat) (ph : RegistryPhase) (hp : g.phases i = some ph)
    (ho : ph ≠ .telling []) :
    Registrar.Run c (⟨Function.update g.phases i (some (ph.after s.machine)),
      (ph.event? s.machine).toList ++ g.history⟩, s.become (ph.effect s.machine)) :=
  hr.tail (.move i hp (RegistryPhase.moves_after ho i s))

-- A thread is looked after, then the machine exits, and then the thread is registered: everything is
-- over, and nobody has told the thread to end.
theorem Registrar.settled_of_race :
    ∃ (s : Scene) (g : Registrar) (s' : Scene), s.machine.exitStatus = none ∧
      Registrar.Run (.fresh, s) (g, s') ∧ (∀ i ph, g.phases i = some ph → ph.rest = .done ()) ∧
      s'.machine.exitStatus = some 7 ∧ s'.machine.threadIds = [1] ∧
      s'.machine.shouldTerminate 1 = false ∧ g.history.Misses 1 ∧ Registrar.Settled g s' := by
  let s : Scene := ⟨.create [] .standard .standard .sound .sound (.ofVerbosity none), []⟩
  have h0 : Registrar.Run (.fresh, s) _ := .single (.call 0 (.newThread "a") rfl)
  have h1 : Registrar.Run (.fresh, s) _ := (h0.advance 0 (.numbering "a") rfl
    (by rintro ⟨⟩)).advance 0 (.looking 1 "a") rfl (by rintro ⟨⟩)
  have h2 : Registrar.Run (.fresh, s) _ := h1.tail (.call 1 (.exit 7) rfl)
  have h3 : Registrar.Run (.fresh, s) _ := ((h2.advance 1 (.recording 7) rfl
    (by rintro ⟨⟩)).advance 1 .pausing rfl (by rintro ⟨⟩)).advance 1 .listing rfl (by rintro ⟨⟩)
  have h4 : Registrar.Run (.fresh, s) _ := (h3.advance 0 (.yielding 1 "a" false) rfl
    (by rintro ⟨⟩)).advance 0 (.registering 1 "a" false) rfl (by rintro ⟨⟩)
  refine ⟨s, _, _, rfl, h4, fun i ph hp => ?_, rfl, rfl, rfl, ?_, (settled_of_run rfl h4).2⟩
  · match i with
    | 0 =>
      cases hp
      rfl
    | 1 =>
      cases hp
      rfl
    | i + 2 => cases hp
  · exact ⟨[], [.listed [], .recorded 7], [], rfl, by simp, by simp⟩

end BytecodeMachine
