import BytecodeMachine.Proofs.Tasks.Fibers
import BytecodeMachine.Proofs.Tasks.Starts

namespace BytecodeMachine

inductive Fiber.Tells : Fiber → TaskStatus → Prop
  | running {b : Blocker} {next : Wake → Machine → Progress (Except RunError Unit)} :
      Tells (.pending b next) .running
  | completed : Tells (.finished (.ok ())) .exitedRegular
  | exited : Tells (.finished (.error (.exit 0))) .exitedRegular
  | failed {x : RunError} (h : x ≠ .exit 0) : Tells (.finished (.error x)) .exitedFatal

theorem Fiber.Tells.unique {f : Fiber} {s s' : TaskStatus} (h : f.Tells s) (h' : f.Tells s') :
    s = s' := by
  cases h with
  | running => cases h'; rfl
  | completed => cases h'; rfl
  | exited =>
    cases h' with
    | exited => rfl
    | failed hx => exact absurd rfl hx
  | failed hx =>
    cases h' with
    | exited => exact absurd rfl hx
    | failed => rfl

namespace World

variable {w w' : World} {r : Except RunError Unit}

def turns (n : Nat) (w : World) : World :=
  match w.fibers with
  | [] => w
  | f :: rest =>
      let (f, m, _) := slice n f w.machine
      ⟨m, f :: rest⟩

def change (f : Machine → Machine) (w : World) : World :=
  { w with machine := f w.machine }

theorem onward_turns (n : Nat) (w : World) : Onward w.fibers (w.turns n).fibers := by
  obtain ⟨m, fibers⟩ := w
  cases fibers with
  | nil => exact .refl []
  | cons f rest => exact .cons (f.onward_slice n _) (Onward.refl rest)

theorem onward_exit (code : Int32) (w : World) : Onward w.fibers (Task.exit code w).fibers := by
  unfold Task.exit
  split
  · rename_i w' hw
    exact onward_drive hw
  · exact .refl _

theorem test_of_runUntil {α : Type} {test : World → Option α} {limit : Option Nat} {bound : Nat}
    {a : α} (h : runUntil test limit bound w = (some a, w')) : test w' = some a := by
  induction bound generalizing w with
  | zero => cases h
  | succ bound ih =>
    rw [runUntil] at h
    split at h
    · rename_i ha
      cases h
      exact ha
    · split at h
      · cases h
      · dsimp only at h
        split at h
        · exact ih h
        · split at h
          · cases h
          · exact ih h

theorem result?_of_join (h : w.join 0 = (some r, w')) :
    w'.fibers.head?.bind Fiber.result? = some r := by
  have ht := test_of_runUntil h
  rwa [← List.head?_eq_getElem?] at ht

end World

namespace Task

structure Onward (t t' : Task) : Prop where
  fibers : World.Onward t.world.fibers t'.world.fibers
  kept : ∀ code, t.exitCode = some code → t'.exitCode = some code
  ended : t.exitCode = t.result?.map codeOf → t'.exitCode = t'.result?.map codeOf

variable {t t' : Task} {f : World → World}

theorem Onward.refl (t : Task) : t.Onward t := ⟨.refl _, fun _ => id, id⟩

theorem result?_of_onward (h : World.Onward t.world.fibers t'.world.fibers) {r : Except RunError Unit}
    (hr : t.result? = some r) : t'.result? = some r := by
  unfold result? at hr ⊢
  cases hf : t.world.fibers with
  | nil => simp [hf] at hr
  | cons f rest =>
    rw [hf] at h hr
    obtain ⟨g, others, hg, -, hfibers⟩ := List.forall₂_cons_left_iff.1 h
    rw [hfibers]
    exact hg.result r hr

theorem onward_act (h : World.Onward t.world.fibers (f t.world).fibers) : t.Onward (t.act f) := by
  refine ⟨h, fun code hc => ?kept, fun he => ?ended⟩
  case kept => simp [act, hc]
  case ended =>
    change (t.exitCode <|> (t.act f).result?.map codeOf) = (t.act f).result?.map codeOf
    cases hr : t.result? with
    | none => simp [he, hr]
    | some r =>
      have hkept : (t.act f).result? = some r := result?_of_onward h hr
      simp [he, hr, hkept]

theorem status_of_onward (h : t.Onward t') (hs : t.status ≠ .running) : t'.status = t.status := by
  unfold status at hs ⊢
  cases hc : t.exitCode with
  | none => simp [hc] at hs
  | some code => rw [h.kept code hc]

theorem tells_status {g : Fiber} (h : t.exitCode = g.result?.map codeOf) : g.Tells t.status := by
  unfold status
  rw [h]
  cases g with
  | pending => exact .running
  | finished r =>
    cases r with
    | ok => exact .completed
    | error x =>
      by_cases hx : x = .exit 0
      · subst hx
        exact .exited
      · have hc : codeOf (.error x) ≠ 0 := by
          cases x with
          | exit code => exact fun h => hx (congrArg _ h)
          | _ => exact of_decide_eq_false rfl
        simp only [Fiber.result?, Option.map_some, if_neg hc]
        exact .failed hx

theorem status_eq_running_iff : t.status = .running ↔ t.exitCode = none := by
  unfold status
  cases t.exitCode with
  | none => exact ⟨fun _ => rfl, fun _ => rfl⟩
  | some code =>
    dsimp only
    split <;> exact ⟨nofun, nofun⟩

theorem status_act {g : Fiber} {s : TaskStatus} (hr : t.status = .running)
    (hf : (f t.world).fibers.head?.bind Fiber.result? = g.result?) (hs : g.Tells s) :
    (t.act f).status = s := by
  have hcode : (t.act f).exitCode = g.result?.map codeOf := by
    rw [← hf]
    change (t.exitCode <|> _) = _
    rw [status_eq_running_iff.1 hr]
    rfl
  exact (tells_status hcode).unique hs

end Task

namespace TaskTable

variable {t t' : TaskTable} {id : UInt32} {f : World → World} {task : Task}

structure Onward (t t' : TaskTable) : Prop where
  suites : t'.suites = t.suites
  lastId : t'.lastId = t.lastId
  tasks : ∀ id, Option.Rel Task.Onward (t.task? id) (t'.task? id)

theorem Onward.refl (t : TaskTable) : t.Onward t := by
  refine ⟨rfl, rfl, fun id => ?_⟩
  cases t.task? id with
  | none => exact .none
  | some task => exact .some (.refl task)

theorem Onward.exists_before (h : t.Onward t') (ht : t'.task? id = some task) :
    ∃ before, t.task? id = some before ∧ before.Onward task := by
  have hrel := h.tasks id
  rw [ht] at hrel
  generalize t.task? id = o at hrel ⊢
  cases hrel with
  | some hrel => exact ⟨_, rfl, hrel⟩

theorem Onward.exists_after (h : t.Onward t') (ht : t.task? id = some task) :
    ∃ later, t'.task? id = some later ∧ task.Onward later := by
  have hrel := h.tasks id
  rw [ht] at hrel
  generalize t'.task? id = o at hrel ⊢
  cases hrel with
  | some hrel => exact ⟨_, rfl, hrel⟩

theorem act_cases (t : TaskTable) (id : UInt32) (f : World → World) :
    t.act id f = t ∨ ∃ task j m, t.task? id = some task ∧ t.act id f =
      { t with journal := j, tasks := t.tasks.put id { task.act f with world.machine := m } } := by
  unfold act
  cases ht : t.task? id with
  | none => exact .inl rfl
  | some task =>
    refine .inr ⟨task, ?_⟩
    dsimp only
    split
    · exact ⟨_, _, rfl, rfl⟩
    · exact ⟨_, _, rfl, rfl⟩

theorem onward_act (t : TaskTable) (id : UInt32)
    (hf : ∀ w : World, World.Onward w.fibers (f w).fibers) : t.Onward (t.act id f) := by
  rcases t.act_cases id f with h | ⟨task, j, m, ht, h⟩
  · rw [h]
    exact .refl t
  · have hact := Task.onward_act (hf task.world)
    rw [h]
    refine ⟨rfl, rfl, fun other => ?_⟩
    refine Eq.mpr (congrArg (Option.Rel Task.Onward _) (Entries.get?_put _ _ _ _)) ?_
    split
    · rename_i he
      subst he
      rw [ht]
      exact .some ⟨hact.fibers, hact.kept, hact.ended⟩
    · exact (Onward.refl t).tasks other

theorem onward_drain (t : TaskTable) (id : UInt32) : t.Onward (t.drain id) := by
  have h : t.Onward (t.act id (World.change Machine.drain)) := t.onward_act id fun w => .refl _
  exact ⟨h.suites, h.lastId, h.tasks⟩

theorem status?_act (ht : t.task? id = some task) :
    (t.act id f).status? id = some (task.act f).status := by
  unfold act
  rw [ht]
  dsimp only
  split
  all_goals
    refine (congrArg (Option.map Task.status) (Entries.get?_put _ _ _ _)).trans ?_
    rw [if_pos rfl]
    rfl

-- What a running task comes to where its main thread gets turns, or is waited for.
structure Follows (t : TaskTable) (id : UInt32) (task : Task) : Prop where
  turns : ∀ n f s, (task.world.turns n).fibers = [f] → f.Tells s →
    (t.act id (World.turns n)).status? id = some s
  wait : ∀ r w s, task.world.join 0 = (some r, w) → (Fiber.finished r).Tells s →
    (t.wait id).status? id = some s

theorem follows (ht : t.task? id = some task) (hr : task.status = .running) : t.Follows id task where
  turns n f s hf hs := by
    refine (status?_act ht).trans (congrArg some (Task.status_act hr ?_ hs))
    rw [hf]
    rfl
  wait r w s hw hs := by
    refine (status?_act ht).trans (congrArg some (Task.status_act hr ?_ hs))
    change (task.world.join 0).2.fibers.head?.bind _ = some r
    rw [hw]
    exact World.result?_of_join hw

end TaskTable

inductive TaskAction where
  | start (a : TaskStart)
  | turns (id : UInt32) (n : Nat)
  | change (id : UInt32) (f : Machine → Machine)
  | wait (id : UInt32)
  | exit (id : UInt32) (code : Int32)
  | drain (id : UInt32)

structure TaskHistory where
  log : List (TaskStart × TaskReply)
  table : TaskTable

namespace TaskHistory

variable {e : Engine} {suites : List Library} {h : TaskHistory} {t : TaskTable} {id : UInt32}
  {task : Task} {s : TaskStatus}

def next (e : Engine) (h : TaskHistory) : TaskAction → TaskHistory
  | .start a =>
      let (reply, t) := a.on e h.table
      ⟨h.log ++ [(a, reply)], t⟩
  | .turns id n => { h with table := h.table.act id (World.turns n) }
  | .change id f => { h with table := h.table.act id (World.change f) }
  | .wait id => { h with table := h.table.wait id }
  | .exit id code => { h with table := h.table.exit id code }
  | .drain id => { h with table := h.table.drain id }

def after (e : Engine) (t : TaskTable) (actions : List TaskAction) : TaskHistory :=
  actions.foldl (next e) ⟨[], t⟩

def given (h : TaskHistory) : Nat := h.log.countP fun x => x.2.any (·.isOk)

def lost (h : TaskHistory) : Nat := h.log.countP fun x => x.2.isNone

def counted (h : TaskHistory) : Nat := h.given + h.lost

theorem next_cases (e : Engine) (h : TaskHistory) (action : TaskAction) :
    (∃ a, h.next e action = ⟨h.log ++ [(a, (a.on e h.table).1)], (a.on e h.table).2⟩) ∨
      ∃ t, h.table.Onward t ∧ h.next e action = ⟨h.log, t⟩ := by
  cases action with
  | start a => exact .inl ⟨a, rfl⟩
  | turns id n => exact .inr ⟨_, h.table.onward_act id (World.onward_turns n), rfl⟩
  | change id f => exact .inr ⟨_, h.table.onward_act id (f := World.change f) fun _ => .refl _, rfl⟩
  | wait id =>
    exact .inr ⟨_, h.table.onward_act id (f := Task.finish) fun w => World.onward_runUntil _ _ _ w, rfl⟩
  | exit id code => exact .inr ⟨_, h.table.onward_act id (World.onward_exit code), rfl⟩
  | drain id => exact .inr ⟨_, h.table.onward_drain id, rfl⟩

theorem counted_le_next (e : Engine) (h : TaskHistory) (action : TaskAction) :
    h.counted ≤ (h.next e action).counted := by
  rcases h.next_cases e action with ⟨a, ha⟩ | ⟨t, -, ha⟩
  · simp only [ha, counted, given, lost, List.countP_append]
    omega
  · rw [ha]
    exact Nat.le_refl _

theorem counted_le_after (e : Engine) (h : TaskHistory) (more : List TaskAction) :
    h.counted ≤ (more.foldl (next e) h).counted := by
  induction more generalizing h with
  | nil => exact Nat.le_refl _
  | cons action rest ih => exact Nat.le_trans (h.counted_le_next e action) (ih _)

def Explains (e : Engine) (h : TaskHistory) (id : UInt32) (task : Task) : Prop :=
  ∃ a c, (a, some (.ok id)) ∈ h.log ∧ ClassName.ofSource a.entry = .ok c ∧
    match a.grant with
    | .granted => ∃ f, task.world.fibers = [f] ∧ f.Runs (.runMain e (.main c) a.arguments) ∧
        task.exitCode = f.result?.map Task.codeOf
    | .denied _ => task.world.fibers = [] ∧ task.exitCode = some 1

structure Consistent (e : Engine) (suites : List Library) (h : TaskHistory) : Prop where
  suites : h.table.suites = suites
  lastId : h.table.lastId = .ofNat h.counted
  bounded : h.counted < UInt32.size → ∀ id task, h.table.task? id = some task → id.toNat ≤ h.counted
  explained : ∀ id task, h.table.task? id = some task → h.Explains e id task
  logged : ∀ a id, (a, some (.ok id)) ∈ h.log → (h.table.task? id).isSome

theorem Consistent.opened (e : Engine) (suites : List Library) (settings : Settings)
    (journal : Journal) : Consistent e suites ⟨[], .opened suites settings journal⟩ :=
  ⟨rfl, rfl, (fun _ _ _ h => nomatch h), (fun _ _ h => nomatch h), (fun _ _ h => nomatch h)⟩

theorem Explains.onward {task' : Task} (hx : h.Explains e id task) (ht : task.Onward task') :
    h.Explains e id task' := by
  obtain ⟨a, c, ha, hac, hx⟩ := hx
  refine ⟨a, c, ha, hac, ?_⟩
  have hfibers := ht.fibers
  cases hg : a.grant with
  | granted =>
    rw [hg] at hx
    obtain ⟨f, hf, hruns, hcode⟩ := hx
    rw [hf] at hfibers
    obtain ⟨g, others, hfg, hnil, hfs⟩ := List.forall₂_cons_left_iff.1 hfibers
    cases hnil
    have hcode : task.exitCode = task.result?.map Task.codeOf := by
      rw [hcode, Task.result?, hf]
      rfl
    refine ⟨g, hfs, hfg.runs _ hruns, (ht.ended hcode).trans ?_⟩
    rw [Task.result?, hfs]
    rfl
  | denied reason =>
    rw [hg] at hx
    rw [hx.1] at hfibers
    exact ⟨List.forall₂_nil_left_iff.1 hfibers, ht.kept 1 hx.2⟩

theorem Explains.append (hx : h.Explains e id task) (x : TaskStart × TaskReply) (t : TaskTable) :
    Explains e ⟨h.log ++ [x], t⟩ id task := by
  obtain ⟨a, c, ha, hx⟩ := hx
  exact ⟨a, c, List.mem_append_left _ ha, hx⟩

theorem Consistent.onward (hc : h.Consistent e suites) (ht : h.table.Onward t) :
    Consistent e suites ⟨h.log, t⟩ := by
  refine ⟨ht.suites.trans hc.suites, ht.lastId.trans hc.lastId, ?bounded, ?explained, ?logged⟩
  case bounded =>
    intro hlt id task hid
    obtain ⟨before, hb, -⟩ := ht.exists_before hid
    exact hc.bounded hlt id before hb
  case explained =>
    intro id task hid
    obtain ⟨before, hb, hrel⟩ := ht.exists_before hid
    exact (hc.explained id before hb).onward hrel
  case logged =>
    intro a id ha
    obtain ⟨task, htask⟩ := Option.isSome_iff_exists.1 (hc.logged a id ha)
    obtain ⟨later, hl, -⟩ := ht.exists_after htask
    exact Option.isSome_iff_exists.2 ⟨later, hl⟩

theorem counted_started (h : TaskHistory) (a : TaskStart) (id : UInt32) (t : TaskTable) :
    counted ⟨h.log ++ [(a, some (.ok id))], t⟩ = h.counted + 1 := by
  simp [counted, given, lost, Except.isOk, Except.toBool]
  omega

theorem Consistent.lastId_succ (hc : h.Consistent e suites) :
    h.table.lastId + 1 = .ofNat (h.counted + 1) := by
  rw [hc.lastId, UInt32.ofNat_add]
  rfl

theorem Consistent.started (hc : h.Consistent e suites) {a : TaskStart} {c : ClassName} {j : Journal}
    {m : Machine} (hac : ClassName.ofSource a.entry = .ok c) :
    Consistent e suites ⟨h.log ++ [(a, some (.ok (h.table.lastId + 1)))], { h.table with
      journal := j
      lastId := h.table.lastId + 1
      tasks := h.table.tasks.put (h.table.lastId + 1) (.start e a.grant m c a.arguments) }⟩ := by
  have hput (id : UInt32) :
      (h.table.tasks.put (h.table.lastId + 1) (Task.start e a.grant m c a.arguments)).get? id =
        if h.table.lastId + 1 = id then some (.start e a.grant m c a.arguments)
        else h.table.task? id := Entries.get?_put _ _ _ _
  refine ⟨hc.suites, ?lastId, ?bounded, ?explained, ?logged⟩
  case lastId =>
    rw [counted_started]
    exact hc.lastId_succ
  case bounded =>
    rw [counted_started]
    intro hlt id other hid
    rw [TaskTable.task?, hput] at hid
    split at hid
    · rename_i he
      exact Nat.le_of_eq (by rw [← he, hc.lastId_succ, UInt32.toNat_ofNat_of_lt' hlt])
    · exact Nat.le_succ_of_le (hc.bounded (by omega) id other hid)
  case explained =>
    intro id other hid
    rw [TaskTable.task?, hput] at hid
    split at hid
    · rename_i he
      cases hid
      refine ⟨a, c, by simp [he], hac, ?_⟩
      cases a.grant with
      | granted => exact ⟨_, rfl, .start, rfl⟩
      | denied => exact ⟨rfl, rfl⟩
    · exact (hc.explained id other hid).append _ _
  case logged =>
    intro b id hb
    rw [TaskTable.task?, hput]
    split
    · rfl
    · rename_i hne
      refine hc.logged b id ?_
      simpa [Ne.symm hne] using hb

theorem Consistent.start (hc : h.Consistent e suites) (a : TaskStart) :
    Consistent e suites ⟨h.log ++ [(a, (a.on e h.table).1)], (a.on e h.table).2⟩ := by
  have hstep := a.on_step e h.table
  generalize a.on e h.table = p at hstep ⊢
  obtain ⟨reply, t⟩ := p
  have hlogged (hno : ∀ id, reply ≠ some (.ok id)) (b : TaskStart) (id : UInt32)
      (hb : (b, some (.ok id)) ∈ h.log ++ [(a, reply)]) : (h.table.task? id).isSome := by
    refine hc.logged b id ?_
    simpa [Ne.symm (hno id)] using hb
  cases hstep with
  | @refused err j =>
    have hn (t : TaskTable) : counted ⟨h.log ++ [(a, some (.error err))], t⟩ = h.counted := by
      simp [counted, given, lost, Except.isOk, Except.toBool]
    refine ⟨hc.suites, ?_, ?_, fun id task hid => (hc.explained id task hid).append _ _,
      hlogged nofun⟩
    · rw [hn]
      exact hc.lastId
    · rw [hn]
      exact hc.bounded
  | @lost j =>
    have hn (t : TaskTable) : counted ⟨h.log ++ [(a, none)], t⟩ = h.counted + 1 := by
      simp [counted, given, lost, Nat.add_assoc]
    refine ⟨hc.suites, ?_, ?_, fun id task hid => (hc.explained id task hid).append _ _,
      hlogged nofun⟩
    · rw [hn]
      exact hc.lastId_succ
    · rw [hn]
      exact fun hlt id task hid => Nat.le_succ_of_le (hc.bounded (by omega) id task hid)
  | started _ _ hac => exact hc.started hac

theorem Consistent.next (hc : h.Consistent e suites) (action : TaskAction) :
    (h.next e action).Consistent e suites := by
  rcases h.next_cases e action with ⟨a, ha⟩ | ⟨t, ht, ha⟩
  · exact ha ▸ hc.start a
  · exact ha ▸ hc.onward ht

theorem consistent_after (e : Engine) (suites : List Library) (settings : Settings)
    (journal : Journal) (actions : List TaskAction) :
    (after e (.opened suites settings journal) actions).Consistent e suites :=
  List.foldlRecOn actions (next e) (Consistent.opened e suites settings journal)
    fun _ hc action _ => hc.next action

theorem Consistent.status_next (hc : h.Consistent e suites) (action : TaskAction)
    (hlt : (h.next e action).counted < UInt32.size) (hs : h.table.status? id = some s)
    (hne : s ≠ .running) : (h.next e action).table.status? id = some s := by
  obtain ⟨task, htask, rfl⟩ := Option.map_eq_some_iff.1 hs
  rcases h.next_cases e action with ⟨a, ha⟩ | ⟨t, ht, ha⟩
  · have hstep := a.on_step e h.table
    rw [ha] at hlt ⊢
    dsimp only
    generalize a.on e h.table = p at hstep hlt ⊢
    obtain ⟨reply, t⟩ := p
    cases hstep with
    | refused => exact hs
    | lost => exact hs
    | started =>
      rw [counted_started] at hlt
      have hid := hc.bounded (by omega) id task htask
      have hother : h.table.lastId + 1 ≠ id := by
        rintro rfl
        rw [hc.lastId_succ, UInt32.toNat_ofNat_of_lt' hlt] at hid
        omega
      refine (congrArg (Option.map Task.status) (Entries.get?_put _ _ _ _)).trans ?_
      rw [if_neg hother]
      exact hs
  · obtain ⟨later, hl, hrel⟩ := ht.exists_after htask
    rw [ha, TaskTable.status?, hl]
    exact congrArg some (Task.status_of_onward hrel hne)

theorem Consistent.status_after (hc : h.Consistent e suites) (more : List TaskAction)
    (hlt : (more.foldl (TaskHistory.next e) h).counted < UInt32.size)
    (hs : h.table.status? id = some s) (hne : s ≠ .running) :
    (more.foldl (TaskHistory.next e) h).table.status? id = some s := by
  induction more generalizing h with
  | nil => exact hs
  | cons action rest ih =>
    have hnext := Nat.lt_of_le_of_lt ((h.next e action).counted_le_after e rest) hlt
    exact ih (hc.next action) hlt (hc.status_next action hnext hs hne)

theorem Consistent.status_eq_none_iff (hc : h.Consistent e suites) (id : UInt32) :
    h.table.status? id = none ↔ ∀ a, (a, some (.ok id)) ∉ h.log := by
  rw [TaskTable.status?, Option.map_eq_none_iff]
  constructor
  · intro hnone a ha
    have := hc.logged a id ha
    simp [hnone] at this
  · intro hno
    cases htask : h.table.task? id with
    | none => rfl
    | some task =>
      obtain ⟨a, _, ha, _⟩ := hc.explained id task htask
      exact absurd ha (hno a)

-- The start that got this number, and how its task stands by what its own main thread has come to. One
-- that got no thread has failed.
def Stands (e : Engine) (h : TaskHistory) (id : UInt32) (s : TaskStatus) : Prop :=
  ∃ a c task, (a, some (.ok id)) ∈ h.log ∧ ClassName.ofSource a.entry = .ok c ∧
    h.table.task? id = some task ∧
    match a.grant with
    | .granted => ∃ f, task.world.fibers = [f] ∧ f.Runs (.runMain e (.main c) a.arguments) ∧
        f.Tells s
    | .denied _ => task.world.fibers = [] ∧ s = .exitedFatal

theorem Consistent.stands (hc : h.Consistent e suites) (hs : h.table.status? id = some s) :
    h.Stands e id s := by
  obtain ⟨task, htask, rfl⟩ := Option.map_eq_some_iff.1 hs
  obtain ⟨a, c, ha, hac, hx⟩ := hc.explained id task htask
  refine ⟨a, c, task, ha, hac, htask, ?_⟩
  cases hg : a.grant with
  | granted =>
    rw [hg] at hx
    obtain ⟨f, hf, hruns, hcode⟩ := hx
    exact ⟨f, hf, hruns, Task.tells_status hcode⟩
  | denied reason =>
    rw [hg] at hx
    exact ⟨hx.1, by simp [Task.status, hx.2]⟩

end TaskHistory

-- A start is refused for a missing library or an empty path, and only otherwise for its entry. Every other
-- one gets the next number, but where the host breaks off the number is lost.
theorem TaskTable.tasks_accounted (e : Engine) (suites : List Library) (settings : Settings)
    (journal : Journal) (actions : List TaskAction) :
    let t := TaskTable.opened suites settings journal
    let h := TaskHistory.after e t actions
    (∀ a : TaskStart,
      (∀ err, (a.on e h.table).1 = some (.error err) ↔ a.Refused suites err) ∧
      (∀ err, a.Refused suites err →
        (a.on e h.table).2.tasks = h.table.tasks ∧ (a.on e h.table).2.lastId = h.table.lastId) ∧
      ((∀ err, ¬ a.Refused suites err) → (a.on e h.table).1 =
        if '\x00' ∈ a.entry.toList then none else some (.ok (.ofNat (1 + (h.given + h.lost)))))) ∧
    (∀ id, h.table.status? id = none ↔ ∀ a, (a, some (.ok id)) ∉ h.log) ∧
    (∀ id s, h.table.status? id = some s → h.Stands e id s ∧
      (s ≠ .running → ∀ more,
        let later := TaskHistory.after e t (actions ++ more)
        later.given + later.lost < UInt32.size → later.table.status? id = some s)) ∧
    ∀ id task, h.table.task? id = some task → task.status = .running → h.table.Follows id task := by
  intro t h
  have hc : h.Consistent e suites := TaskHistory.consistent_after e suites settings journal actions
  refine ⟨fun a => ⟨fun err => ?_, fun err hr => ?_, fun hno => ?_⟩, hc.status_eq_none_iff,
    fun id s hs => ⟨hc.stands hs, fun hne more => ?_⟩, fun _ _ => TaskTable.follows⟩
  · exact hc.suites ▸ (a.on_step e h.table).error_iff
  · exact (a.on_step e h.table).unchanged (hc.suites ▸ hr)
  · rw [(a.on_step e h.table).accepted (hc.suites ▸ hno), hc.lastId_succ, Nat.add_comm]
    rfl
  · rw [TaskHistory.after, List.foldl_append]
    exact fun hlt => hc.status_after more hlt hs hne

section Lost

open TaskTable TaskHistory

def advertising (name entry : String) : Library :=
  .ofClasses name [] [(manifestPath, Text.bytes ("Main-Class: " ++ entry))]

def lostSuites : List Library := [advertising "app" "t.A", advertising "odd" "t.A\x00"]

def grantedStart : TaskStart := ⟨.sound, .sound, .granted, ["app"], "t.A", []⟩

def lostStart : TaskStart := ⟨.sound, .sound, .granted, ["odd"], "t.A\x00", []⟩

def deniedStart : TaskStart := ⟨.sound, .sound, .denied "no thread", ["odd", "app"], "t.A", []⟩

def unknownStart : TaskStart := ⟨.sound, .sound, .granted, ["app", "lib"], "t.A", []⟩

def lostTable : TaskTable := .opened lostSuites .standard (.ofVerbosity none)

def lostHistory (starts : List TaskStart) : TaskHistory :=
  after (.bounded 4) lostTable (starts.map .start)

theorem log_lostHistory (starts : List TaskStart) (a : TaskStart) :
    (lostHistory (starts ++ [a])).log =
      (lostHistory starts).log ++ [(a, (a.on (.bounded 4) (lostHistory starts).table).1)] := by
  rw [lostHistory, after, List.map_append, List.foldl_append]
  rfl

theorem accepted_of_mainClass {a : TaskStart} {name : String} {c : ClassName}
    (hm : lostTable.missing? a.path = none)
    (hb : lostTable.boot? a.path = some (advertising name a.entry))
    (he : (Manifest.parse (Text.ofBytes (Text.bytes ("Main-Class: " ++ a.entry)))).get? "Main-Class" =
      some a.entry) (hc : ClassName.ofSource a.entry = .ok c) (err : TaskError) :
    ¬ a.Refused lostSuites err := by
  refine TaskStart.not_refused hm hb ⟨_, rfl, ?_⟩ hc err
  rw [Manifest.entryPoints, he]
  exact List.mem_append_left _ List.mem_cons_self

theorem grantedStart_accepted (err : TaskError) : ¬ grantedStart.Refused lostSuites err :=
  accepted_of_mainClass (c := ⟨"t/A"⟩) rfl rfl (by decide +kernel) (by decide +kernel) err

theorem lostStart_accepted (err : TaskError) : ¬ lostStart.Refused lostSuites err :=
  accepted_of_mainClass (c := ⟨"t/A\x00"⟩) rfl rfl (by decide +kernel) (by decide +kernel) err

theorem deniedStart_accepted (err : TaskError) : ¬ deniedStart.Refused lostSuites err :=
  accepted_of_mainClass (c := ⟨"t/A"⟩) rfl rfl (by decide +kernel) (by decide +kernel) err

theorem unknownStart_refused : unknownStart.Refused lostSuites (.missingLibrary "lib") := by
  refine .inl ⟨["app"], [], rfl, fun n hn => ?_, ?_⟩
  · exact ⟨_, List.mem_cons_self, (List.mem_singleton.1 hn).symm⟩
  · rintro ⟨l, hl, hname⟩
    simp only [lostSuites, List.mem_cons, List.not_mem_nil, or_false] at hl
    rcases hl with rfl | rfl
    all_goals exact absurd hname (by decide)

theorem TaskTable.tasks_accounted_of_lost_start :
    let h := lostHistory [grantedStart, lostStart, deniedStart]
    h.log = [(grantedStart, some (.ok 1)), (lostStart, none), (deniedStart, some (.ok 3))] ∧
      h.table.status? 1 ≠ none ∧ h.table.status? 2 = none ∧
      h.table.status? 3 = some .exitedFatal ∧
      (unknownStart.on (.bounded 4) h.table).1 = some (.error (.missingLibrary "lib")) := by
  have accounted (starts : List TaskStart) := tasks_accounted (.bounded 4) lostSuites .standard
    (.ofVerbosity none) (starts.map .start)
  have accepted (starts : List TaskStart) {a : TaskStart} (ha : ∀ err, ¬ a.Refused lostSuites err) :
      (a.on (.bounded 4) (lostHistory starts).table).1 = if '\x00' ∈ a.entry.toList then none else
        some (.ok (.ofNat (1 + ((lostHistory starts).given + (lostHistory starts).lost)))) :=
    ((accounted starts).1 a).2.2 ha
  have h1 : (lostHistory [grantedStart]).log = [(grantedStart, some (.ok 1))] := by
    refine (log_lostHistory [] grantedStart).trans ?_
    rw [accepted [] grantedStart_accepted]
    rfl
  have h2 : (lostHistory [grantedStart, lostStart]).log =
      [(grantedStart, some (.ok 1)), (lostStart, none)] := by
    refine (log_lostHistory [grantedStart] lostStart).trans ?_
    rw [h1, accepted _ lostStart_accepted]
    rfl
  have h3 : (lostHistory [grantedStart, lostStart, deniedStart]).log =
      [(grantedStart, some (.ok 1)), (lostStart, none), (deniedStart, some (.ok 3))] := by
    refine (log_lostHistory [grantedStart, lostStart] deniedStart).trans ?_
    rw [accepted _ deniedStart_accepted, given, lost, h2]
    rfl
  obtain ⟨hreplies, hnone, hstands, -⟩ := accounted [grantedStart, lostStart, deniedStart]
  have hmem (a : TaskStart) (id : UInt32) :
      (a, some (.ok id)) ∈ (lostHistory [grantedStart, lostStart, deniedStart]).log ↔
        a = grantedStart ∧ id = 1 ∨ a = deniedStart ∧ id = 3 := by
    simp [h3]
  refine ⟨h3, fun h => ?_, (hnone 2).2 fun a ha => ?_, ?_, ((hreplies _).1 _).2 unknownStart_refused⟩
  · exact (hnone 1).1 h grantedStart ((hmem _ _).2 (.inl ⟨rfl, rfl⟩))
  · obtain ⟨-, h⟩ | ⟨-, h⟩ := (hmem a 2).1 ha
    all_goals exact absurd h (by decide)
  · cases hs : (lostHistory [grantedStart, lostStart, deniedStart]).table.status? 3 with
    | none => exact absurd ((hmem _ _).2 (.inr ⟨rfl, rfl⟩)) ((hnone 3).1 hs deniedStart)
    | some s =>
      obtain ⟨⟨a, c, task, ha, -, -, hgrant⟩, -⟩ := hstands 3 s hs
      obtain ⟨-, h⟩ | ⟨rfl, -⟩ := (hmem a 3).1 ha
      · exact absurd h (by decide)
      · exact congrArg some hgrant.2

end Lost

end BytecodeMachine
