import BytecodeMachine.Task
import Mathlib.Data.List.Induction

namespace BytecodeMachine

structure TaskStart where
  stdout : Pipe
  stderr : Pipe
  grant : Grant
  path : List String
  entry : String
  arguments : List String

abbrev TaskReply := Option (Except TaskError UInt32)

namespace Library

def Called (suites : List Library) (name : String) (l : Library) : Prop :=
  l.name = name ∧ ∃ earlier later, suites = earlier ++ l :: later ∧ ∀ x ∈ later, x.name ≠ name

def Known (suites : List Library) (name : String) : Prop := ∃ l ∈ suites, l.name = name

def FirstUnknown (suites : List Library) (path : List String) (name : String) : Prop :=
  ∃ found rest, path = found ++ name :: rest ∧ (∀ n ∈ found, Known suites n) ∧ ¬ Known suites name

def Boots (suites : List Library) (path : List String) (l : Library) : Prop :=
  ∃ front name, path = front ++ [name] ∧ Called suites name l

def Advertises (l : Library) (entry : String) : Prop :=
  ∃ bytes, l.resource? "META-INF/MANIFEST.MF" = some bytes ∧
    entry ∈ (Manifest.parse (Text.ofBytes bytes)).entryPoints

end Library

namespace TaskTable

variable {t : TaskTable} {path : List String} {entry name : String} {err : TaskError}
  {libraries : List Library} {l boot : Library}

theorem suite?_eq_some_iff : t.suite? name = some l ↔ Library.Called t.suites name l := by
  unfold suite? Library.Called
  rw [List.find?_eq_some_iff_append, decide_eq_true_eq]
  refine and_congr_right fun _ => ⟨?_, ?_⟩
  · rintro ⟨later, earlier, hs, hlater⟩
    exact ⟨earlier.reverse, later.reverse, by simpa using congrArg List.reverse hs, by simpa using hlater⟩
  · rintro ⟨earlier, later, hs, hlater⟩
    exact ⟨later.reverse, earlier.reverse, by simp [hs], by simpa using hlater⟩

theorem isSome_suite?_iff : (t.suite? name).isSome ↔ Library.Known t.suites name := by
  simp [suite?, Library.Known]

def missing? (t : TaskTable) (path : List String) : Option String :=
  path.find? fun name => (t.suite? name).isNone

theorem missing?_eq_some_iff :
    t.missing? path = some name ↔ Library.FirstUnknown t.suites path name := by
  simp only [missing?, Library.FirstUnknown, List.find?_eq_some_iff_append, ← isSome_suite?_iff,
    Option.not_isNone]
  constructor
  · rintro ⟨hn, found, rest, hp, hfound⟩
    exact ⟨found, rest, hp, hfound, by simpa using hn⟩
  · rintro ⟨found, rest, hp, hfound, hn⟩
    exact ⟨by simpa using hn, found, rest, hp, hfound⟩

theorem missing?_eq_none_iff :
    t.missing? path = none ↔ ∀ n ∈ path, Library.Known t.suites n := by
  simp only [missing?, List.find?_eq_none, ← isSome_suite?_iff, Bool.not_eq_true,
    Option.isNone_eq_false_iff]

def boot? (t : TaskTable) (path : List String) : Option Library :=
  path.getLast?.bind t.suite?

theorem boot?_eq_some_iff : t.boot? path = some boot ↔ Library.Boots t.suites path boot := by
  simp only [boot?, Library.Boots, Option.bind_eq_some_iff, List.getLast?_eq_some_iff, suite?_eq_some_iff]
  constructor
  · rintro ⟨name, ⟨front, hp⟩, hc⟩
    exact ⟨front, name, hp, hc⟩
  · rintro ⟨front, name, hp, hc⟩
    exact ⟨name, ⟨front, hp⟩, hc⟩

theorem boot?_eq_none_iff (h : t.missing? path = none) : t.boot? path = none ↔ path = [] := by
  constructor
  · intro hb
    cases hl : path.getLast? with
    | none => exact List.getLast?_eq_none_iff.1 hl
    | some name =>
      have hs := isSome_suite?_iff.2 (missing?_eq_none_iff.1 h name (List.mem_of_getLast? hl))
      simp [boot?, hl] at hb
      simp [hb] at hs
  · rintro rfl
    rfl

theorem findAll_eq (t : TaskTable) (path : List String) :
    t.findAll path = match t.missing? path with
      | some name => .error (.missingLibrary name)
      | none => .ok (path.filterMap t.suite?) := by
  induction path with
  | nil => rfl
  | cons name rest ih =>
    rw [findAll, ih, missing?, missing?, List.filterMap_cons, List.find?_cons]
    cases t.suite? name with
    | none => rfl
    | some l => cases rest.find? fun name => (t.suite? name).isNone <;> rfl

theorem getLast?_filterMap (h : t.missing? path = none) :
    (path.filterMap t.suite?).getLast? = t.boot? path := by
  induction path using List.reverseRecOn with
  | nil => rfl
  | append_singleton init name _ =>
    have hs := isSome_suite?_iff.2 (missing?_eq_none_iff.1 h name (by simp))
    obtain ⟨l, hl⟩ := Option.isSome_iff_exists.1 hs
    simp [boot?, hl]

theorem mem_entryPoints_manifestOf_iff :
    entry ∈ (manifestOf l).1.entryPoints ↔ l.Advertises entry := by
  unfold manifestOf Library.Advertises
  change _ ↔ ∃ bytes, l.resource? manifestPath = some bytes ∧ _
  cases l.resource? manifestPath with
  | none =>
    have hsuites : (⟨[]⟩ : Manifest).suites = [] := by
      rw [Manifest.suites, Manifest.suitesFrom]
      rfl
    simp [Manifest.entryPoints, Manifest.get?, hsuites]
  | some bytes => simp [readManifest]

theorem entryClass_error_iff : entryClass (manifestOf l).1 entry = .error err ↔
    err = .invalidEntry entry ∧ ¬ (l.Advertises entry ∧ ∃ c, ClassName.ofSource entry = .ok c) := by
  rw [← mem_entryPoints_manifestOf_iff]
  unfold entryClass
  split
  · rename_i hm
    cases ClassName.ofSource entry <;> simp [Except.mapError, hm, eq_comm]
  · rename_i hm
    simp [hm, eq_comm]

theorem ofSource_of_entryClass {m : Manifest} {c : ClassName} (h : entryClass m entry = .ok c) :
    ClassName.ofSource entry = .ok c := by
  unfold entryClass at h
  split at h
  · cases hc : ClassName.ofSource entry with
    | error e => simp [hc, Except.mapError] at h
    | ok d => simpa [hc, Except.mapError] using h
  · cases h

theorem fst_findEntry (t : TaskTable) (path : List String) (entry : String) :
    (t.findEntry path entry).1 = match t.missing? path with
      | some name => .error (.missingLibrary name)
      | none => match t.boot? path with
        | none => .error (.missingLibrary "(empty class path)")
        | some boot =>
            (entryClass (manifestOf boot).1 entry).map fun c => (path.filterMap t.suite?, c) := by
  rw [findEntry, findAll_eq]
  cases hm : t.missing? path with
  | some name => rfl
  | none =>
    dsimp only
    rw [getLast?_filterMap hm]
    cases t.boot? path <;> rfl

theorem ofSource_of_findEntry {c : ClassName}
    (h : (t.findEntry path entry).1 = .ok (libraries, c)) : ClassName.ofSource entry = .ok c := by
  rw [fst_findEntry] at h
  split at h
  · cases h
  · split at h
    · cases h
    · rename_i boot _
      cases he : entryClass (manifestOf boot).1 entry with
      | error err => simp [he, Except.map] at h
      | ok d =>
        have hd : d = c := by simpa [he, Except.map] using congrArg (·.map Prod.snd) h
        exact hd ▸ ofSource_of_entryClass he

end TaskTable

namespace TaskStart

open TaskTable

variable {t t' : TaskTable} {a : TaskStart} {err : TaskError} {reply : TaskReply} {e : Engine}

def Refused (a : TaskStart) (suites : List Library) : TaskError → Prop
  | .missingLibrary name =>
      Library.FirstUnknown suites a.path name ∨ a.path = [] ∧ name = "(empty class path)"
  | .invalidEntry entry => entry = a.entry ∧ (∀ n ∈ a.path, Library.Known suites n) ∧
      ∃ boot, Library.Boots suites a.path boot ∧
        ¬ (boot.Advertises a.entry ∧ ∃ c, ClassName.ofSource a.entry = .ok c)

theorem fst_findEntry_error_iff :
    (t.findEntry a.path a.entry).1 = .error err ↔ a.Refused t.suites err := by
  rw [fst_findEntry]
  simp only [Refused, ← missing?_eq_some_iff, ← missing?_eq_none_iff, ← boot?_eq_some_iff]
  cases hm : t.missing? a.path with
  | some name =>
    have hp : a.path ≠ [] := by
      rintro hp
      simp [hp, missing?] at hm
    cases err <;> simp [hp]
  | none =>
    cases hb : t.boot? a.path with
    | none =>
      have hp := (boot?_eq_none_iff hm).1 hb
      cases err <;> simp [hp, eq_comm]
    | some boot =>
      have hp : a.path ≠ [] := by
        intro hp
        cases hb.symm.trans ((boot?_eq_none_iff hm).2 hp)
      have hentry : ((entryClass (manifestOf boot).1 a.entry).map fun c =>
          (a.path.filterMap t.suite?, c)) = .error err ↔
          entryClass (manifestOf boot).1 a.entry = .error err := by
        cases entryClass (manifestOf boot).1 a.entry <;> simp [Except.map]
      rw [hentry, entryClass_error_iff]
      cases err <;> simp [hp]

theorem not_refused {l : Library} {c : ClassName}
    (hm : t.missing? a.path = none) (hb : t.boot? a.path = some l) (ha : l.Advertises a.entry)
    (hc : ClassName.ofSource a.entry = .ok c) (err : TaskError) : ¬ a.Refused t.suites err := by
  have hok : ∃ d, entryClass (manifestOf l).1 a.entry = .ok d := by
    cases he : entryClass (manifestOf l).1 a.entry with
    | error x => exact absurd ⟨ha, c, hc⟩ (entryClass_error_iff.1 he).2
    | ok d => exact ⟨d, rfl⟩
  obtain ⟨d, hd⟩ := hok
  rw [← fst_findEntry_error_iff, fst_findEntry, hm, hb]
  dsimp only
  rw [hd]
  nofun

inductive Step (e : Engine) (a : TaskStart) (t : TaskTable) : TaskReply → TaskTable → Prop
  | refused {err : TaskError} {j : Journal} (h : a.Refused t.suites err) :
      Step e a t (some (.error err)) { t with journal := j }
  | started {c : ClassName} {j : Journal} {m : Machine} (h : ∀ err, ¬ a.Refused t.suites err)
      (hn : '\x00' ∉ a.entry.toList) (hc : ClassName.ofSource a.entry = .ok c) :
      Step e a t (some (.ok (t.lastId + 1))) { t with
        journal := j
        lastId := t.lastId + 1
        tasks := t.tasks.put (t.lastId + 1) (.start e a.grant m c a.arguments) }
  | lost {j : Journal} (h : ∀ err, ¬ a.Refused t.suites err) (hn : '\x00' ∈ a.entry.toList) :
      Step e a t none { t with journal := j, lastId := t.lastId + 1 }

theorem Refused.unique {err' : TaskError} (h : a.Refused t.suites err) (h' : a.Refused t.suites err') : err = err' :=
  Except.error.inj ((fst_findEntry_error_iff.2 h).symm.trans (fst_findEntry_error_iff.2 h'))

theorem Step.error_iff (h : a.Step e t reply t') : reply = some (.error err) ↔ a.Refused t.suites err := by
  cases h with
  | refused hr =>
    constructor
    · rintro ⟨⟩
      exact hr
    · intro hr'
      rw [hr.unique hr']
  | started hno => simp [hno err]
  | lost hno => simp [hno err]

theorem Step.unchanged (h : a.Step e t reply t') (hr : a.Refused t.suites err) :
    t'.tasks = t.tasks ∧ t'.lastId = t.lastId := by
  cases h with
  | refused => exact ⟨rfl, rfl⟩
  | started hno => exact absurd hr (hno err)
  | lost hno => exact absurd hr (hno err)

theorem Step.accepted (h : a.Step e t reply t') (hno : ∀ err, ¬ a.Refused t.suites err) :
    reply = if '\x00' ∈ a.entry.toList then none else some (.ok (t.lastId + 1)) := by
  cases h with
  | refused hr => exact absurd hr (hno _)
  | started _ hn => rw [if_neg hn]
  | lost _ hn => rw [if_pos hn]

def on (e : Engine) (a : TaskStart) (t : TaskTable) : TaskReply × TaskTable :=
  t.start e a.stdout a.stderr a.grant a.path a.entry a.arguments

theorem isHostName_hostName (id : UInt32) (entry : String) :
    World.isHostName (hostName id entry) = true ↔ '\x00' ∉ entry.toList := by
  have hid : '\x00' ∉ Nat.toDigits 10 id.toNat := fun h =>
    absurd (Nat.isDigit_of_mem_toDigits (by omega) (by omega) h) (by decide)
  have hs : (toString id).toList = Nat.toDigits 10 id.toNat := Nat.toList_repr
  simp [World.isHostName, hostName, hs, hid]

theorem exists_journal (events : List Event) (t : TaskTable) :
    ∃ j, events.foldl (fun t e => t.note e) t = { t with journal := j } := by
  induction events generalizing t with
  | nil => exact ⟨t.journal, rfl⟩
  | cons x rest ih => exact ih (t.note x)

theorem on_step (e : Engine) (a : TaskStart) (t : TaskTable) :
    a.Step e t (a.on e t).1 (a.on e t).2 := by
  have herror := @fst_findEntry_error_iff t a
  unfold on start
  rcases hf : t.findEntry a.path a.entry with ⟨found, events⟩
  obtain ⟨j, hj⟩ := exists_journal events t
  rw [hf] at herror
  dsimp only at herror ⊢
  rw [hj]
  cases found with
  | error err => exact .refused (herror.1 rfl)
  | ok p =>
    obtain ⟨libraries, c⟩ := p
    have hno (err : TaskError) : ¬ a.Refused t.suites err := fun h => nomatch herror.2 h
    have hc := ofSource_of_findEntry (congrArg Prod.fst hf)
    dsimp only
    unfold add
    by_cases hn : '\x00' ∈ a.entry.toList
    · rw [if_neg (by simpa [isHostName_hostName] using hn)]
      exact .lost hno hn
    · rw [if_pos (by simpa [isHostName_hostName] using hn)]
      obtain ⟨_, _, grant, _, _, _⟩ := a
      cases grant with
      | granted => exact .started hno hn hc
      | denied => exact .started hno hn hc

end TaskStart

end BytecodeMachine
