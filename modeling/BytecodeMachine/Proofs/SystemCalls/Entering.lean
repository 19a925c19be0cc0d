import BytecodeMachine.Proofs.SystemCalls.Entries
import BytecodeMachine.Proofs.SystemCalls.Quiet

namespace BytecodeMachine

variable {α β : Type}

namespace Machine

variable {m : Machine} {i : Nat} {l : ErrorLog}

theorem error_of_errors? (h : m.errors? i = some (ErrorLog.table l)) (index : Int32) :
    m.error i index = l.code (errorTarget index) := by
  obtain ⟨r, hr, he⟩ := Option.map_eq_some_iff.1 h
  rw [error, hr, ← ErrorLog.getElem_table, ← he]
  simp only [Option.map_some, Option.getD_some, ThreadRecord.error, errorSlot_eq]

theorem errors?_setError_table (h : m.errors? i = some (ErrorLog.table l)) (index code : Int32) :
    (m.setError i index code).2.errors? i =
      some (ErrorLog.table (⟨errorTarget index, code⟩ :: l)) := by
  rw [errors?_setError, if_pos rfl, h, ErrorLog.table_cons, ← errorSlot_eq]
  rfl

end Machine

namespace Prog

-- While a thread computes, its table is what its log says, and only such entries are made as are
-- expected of it. Those that were made before the computation stay apart.
def Enters (i : Nat) (B : ErrorLog → Prop) (old : ErrorLog) (Q : α → ErrorLog → Prop) :
    Prog α → ErrorLog → Prop
  | .done a, new => Q a new
  | .step f next, new => ∀ m : Machine, m.Orderly → m.errors? i = some (ErrorLog.table (new ++ old)) →
      ∃ more, B (more ++ new) ∧
        (f m).2.errors? i = some (ErrorLog.table (more ++ new ++ old)) ∧
        (next (f m).1).Enters i B old Q (more ++ new)
  | .sign _ next, new => next.Enters i B old Q new
  | .wait b next, new => ∀ m w m', m.Orderly → b.attempt m = some (w, m') →
      (next w).Enters i B old Q new
  | .starved, _ => True

variable {i : Nat} {B : ErrorLog → Prop} {old new : ErrorLog} {p q : Prog α} {f : α → Prog β}
  {s s' : Scene}

theorem Enters.bind {P : α → ErrorLog → Prop} {Q : β → ErrorLog → Prop}
    (hp : p.Enters i B old P new) (hf : ∀ a new, P a new → (f a).Enters i B old Q new) :
    (p >>= f).Enters i B old Q new := by
  change (p.bind f).Enters i B old Q new
  induction p generalizing new with
  | done a => exact hf a new hp
  | step g next ih =>
    intro m hm hl
    obtain ⟨more, hb, he, hn⟩ := hp m hm hl
    exact ⟨more, hb, he, ih _ hn⟩
  | sign x next ih => exact ih hp
  | wait b next ih => exact fun m w m' hm ha => ih w (hp m w m' hm ha)
  | starved => trivial

theorem enters_of_quiet {P : α → Prop} (hs : s.machine.Orderly) (hB : B new)
    (h : p.Meets (.quiet i) (fun a _ => P a) s') :
    p.Enters i B old (fun a n => n = new ∧ P a) new := by
  induction p generalizing s' with
  | done a => exact ⟨rfl, h⟩
  | step f next ih =>
    intro m hm hl
    obtain ⟨he, hn⟩ := h ⟨m, []⟩ hm
    exact ⟨[], hB, (he i).trans hl, ih _ hn⟩
  | sign x next ih => exact ih (h s hs).2
  | wait b next ih => exact fun m w m' hm ha => ih w (h ⟨m, []⟩ w m' hm ha).2
  | starved => trivial

theorem Enters.moves {Q : α → ErrorLog → Prop} (h : p.Enters i B old Q new)
    (hm : p.Moves i s q s') (hs : s.machine.Orderly)
    (hl : s.machine.errors? i = some (ErrorLog.table (new ++ old))) (hB : B new) :
    ∃ more, B (more ++ new) ∧ s'.machine.errors? i = some (ErrorLog.table (more ++ new ++ old)) ∧
      q.Enters i B old Q (more ++ new) := by
  cases hm with
  | step f next => exact h s.machine hs hl
  | sign x next => exact ⟨[], hB, ((Machine.leaves_pass x s.machine).errors i).trans hl, h⟩
  | wait next ha => exact ⟨[], hB, ((Blocker.leaves_attempt ha).errors i).trans hl, h _ _ _ hs ha⟩

end Prog

namespace Exec

def Enters (i : Nat) (B : ErrorLog → Prop) (old : ErrorLog) (x : Exec α) (t : Thread)
    (Q : Except Trap α → Thread → ErrorLog → Prop) (new : ErrorLog) : Prop :=
  (x.on t).Enters i B old (fun r => Q r.1 r.2) new

variable {i : Nat} {B : ErrorLog → Prop} {old new : ErrorLog} {t : Thread} {s : Scene}
  {x : Exec α} {f : α → Exec β} {Q : Except Trap β → Thread → ErrorLog → Prop}

theorem enters_bind {P : Except Trap α → Thread → ErrorLog → Prop}
    (hx : x.Enters i B old t P new)
    (ok : ∀ a t' new, P (.ok a) t' new → (f a).Enters i B old t' Q new)
    (error : ∀ trap t' new, P (.error trap) t' new → Q (.error trap) t' new) :
    (x >>= f).Enters i B old t Q new := by
  refine Prog.Enters.bind hx fun r n hr => ?_
  obtain ⟨_ | a, t'⟩ := r
  · exact error _ t' n hr
  · exact ok a t' n hr

theorem enters_quiet_bind (hs : s.machine.Orderly) (hx : x.Quiet)
    {P : Except Trap α → Thread → Prop} (hp : ∀ s, x.Meets (.free i) t (fun r t' _ => P r t') s)
    (hB : B new) (ok : ∀ a t', P (.ok a) t' → (f a).Enters i B old t' Q new)
    (error : ∀ trap t', P (.error trap) t' → Q (.error trap) t' new) :
    (x >>= f).Enters i B old t Q new := by
  have hx' : x.Enters i B old t (fun r t' n => n = new ∧ P r t') new :=
    (Prog.enters_of_quiet hs hB (((hx i t s).and_free (hp s)).mono fun _ _ _ h => h.2))
  refine enters_bind hx' (fun a t' n h => ?_) fun trap t' n h => ?_
  · rw [h.1]
    exact ok a t' h.2
  · rw [h.1]
    exact error trap t' h.2

theorem enters_get_bind {f : Thread → Exec β} (hf : (f t).Enters i B old t Q new) :
    (get >>= f).Enters i B old t Q new := hf

theorem enters_note_bind {y : Event} {f : Unit → Exec β} (hf : (f ()).Enters i B old t Q new) :
    (note y >>= f).Enters i B old t Q new := hf

theorem enters_mild_bind {p : Prog α} (hs : s.machine.Orderly) (hp : p.IsMild) (hB : B new)
    (hf : ∀ a, (f a).Enters i B old t Q new) : (lift p >>= f).Enters i B old t Q new := by
  have hend (s : Scene) : (lift p).Meets (.free i) t (fun r t' _ => t' = t ∧ ∃ a, r = .ok a) s :=
    lift_meets_free (fun a _ => ⟨rfl, a, rfl⟩) p
  refine enters_quiet_bind hs (.lift hp) hend hB (fun a t' h => ?_) fun _ _ h => ?_
  · exact h.1 ▸ hf a
  · obtain ⟨-, _, h⟩ := h
    cases h

theorem enters_error_bind (ht : t.id = i) (hB : B new) {index : Int32} {f : Int32 → Exec β}
    (hf : (f (ErrorLog.code (new ++ old) (errorTarget index))).Enters i B old t Q new) :
    (read (·.error t.id index) >>= f).Enters i B old t Q new := by
  intro m hm hl
  refine ⟨[], hB, hl, ?_⟩
  subst ht
  change Prog.Enters _ _ _ _ ((f (m.error t.id index)).on t) new
  rw [Machine.error_of_errors? hl]
  exact hf

theorem enters_setError_bind (ht : t.id = i) {index code : Int32}
    (hB : B (⟨errorTarget index, code⟩ :: new)) {f : Int32 → Exec β}
    (hf : (f (ErrorLog.code (new ++ old) (errorTarget index))).Enters i B old t Q
      (⟨errorTarget index, code⟩ :: new)) :
    (setError index code >>= f).Enters i B old t Q new := by
  intro m hm hl
  subst ht
  refine ⟨[⟨errorTarget index, code⟩], hB, Machine.errors?_setError_table hl index code, ?_⟩
  change Prog.Enters _ _ _ _ ((f (m.error t.id index)).on t) _
  rw [Machine.error_of_errors? hl]
  exact hf

section Calls

variable {e : Engine} {q : SystemRequest}

theorem enters_complete (ht : t.id = i) {n code : Int32}
    (h : q.Records old (.ok n) (⟨errorTarget q.index, code⟩ :: new)) :
    (do
      let _ ← setError q.index code
      pure n : Exec Int32).Enters i (q.Begins old) old t (fun r _ new => q.Records old r new) new :=
  enters_setError_bind ht ⟨_, [], h⟩ h

abbrev completing (q : SystemRequest) (result : Except CallError Int32) : Exec Int32 :=
  match result with
  | .ok n => do
      let _ ← setError q.index 0
      pure n
  | .error err => do
      let _ ← setError q.index err.code
      pure (-1)

theorem enters_ordinary (he : e.Quiet) (hb : e.Balanced) (hs : s.machine.Orderly) (ht : t.id = i)
    (hq : q.IsOrdinary) {call : SystemCall} (hset : call ≠ .errorSet) (hexit : call ≠ .exit) :
    (runCall e call q.arguments >>= completing q).Enters i (q.Begins old) old t
      (fun r _ new => q.Records old r new) [] := by
  have hcall : Built e .core .host [] (runCall e call q.arguments) :=
    .runCall call q.arguments fun h => by
      rcases h with h | h
      · exact absurd h hset
      · exact absurd h hexit
  refine enters_quiet_bind hs (hcall.quiet he) (hcall.kin hb t i)
    (q.begins_nil old) (fun r t' hk => ?_) fun trap _ _ => .trapped hq trap
  have ht' : t'.id = i := hk.id.trans ht
  cases r with
  | ok n => exact enters_complete ht' (.success hq n)
  | error err =>
    refine enters_complete ht' (.failure hq err.code ?_)
    cases err <;> decide

theorem enters_errorGet (ht : t.id = i) (hq : q.index = 1) :
    (runCall e .errorGet q.arguments >>= completing q).Enters i (q.Begins old) old t
      (fun r _ new => q.Records old r new) [] := by
  have h : q.Records old (.ok (old.code (errorTarget (q.argument 0)))) [⟨errorTarget q.index, 0⟩] :=
    hq ▸ .errorGet hq
  simp only [runCall, bind_assoc, pure_bind]
  refine enters_get_bind (enters_error_bind ht (q.begins_nil old) ?_)
  exact enters_complete ht h

theorem enters_errorSet (ht : t.id = i) (hq : q.index = 2) :
    (runCall e .errorSet q.arguments >>= completing q).Enters i (q.Begins old) old t
      (fun r _ new => q.Records old r new) [] := by
  have h : q.Records old (.ok (old.code (errorTarget (q.argument 0))))
      [⟨errorTarget q.index, 0⟩, ⟨errorTarget (q.argument 0), q.argument 1⟩] := hq ▸ .errorSet hq
  have begun : q.Begins old [⟨errorTarget (q.argument 0), q.argument 1⟩] := ⟨_, [_], h⟩
  simp only [runCall, bind_assoc, pure_bind]
  refine enters_setError_bind ht begun ?_
  exact enters_complete ht h

theorem enters_exit (hs : s.machine.Orderly) (ht : t.id = i)
    (hq : q.index = 11) :
    (runCall e .exit q.arguments >>= completing q).Enters i (q.Begins old) old t
      (fun r _ new => q.Records old r new) [] := by
  have h : q.Records old (.error .exit) [⟨errorTarget 11, 0⟩] := .exit hq
  simp only [runCall, exitMachine, bind_assoc, pure_bind]
  have begun : q.Begins old [⟨errorTarget 11, 0⟩] := ⟨_, [], h⟩
  refine enters_get_bind (enters_note_bind ?_)
  refine enters_setError_bind ht begun ?_
  have hsignal (m : Machine) :
      m.Mild (m.modifyRecord t.id fun r => { r with signaledExit := true }) :=
    Machine.mild_modifyRecord (fun _ => by rfl) _ m
  refine enters_mild_bind hs (Prog.isMild_update hsignal) begun fun _ => ?_
  refine enters_mild_bind hs (Prog.isMild_exit _) begun fun _ => ?_
  exact h

theorem enters_systemCall (he : e.Quiet) (hb : e.Balanced) (hs : s.machine.Orderly)
    (ht : t.id = i) (q : SystemRequest) (old : ErrorLog) :
    (systemCall e q.index q.arguments).Enters i (q.Begins old) old t
      (fun r _ new => q.Records old r new) [] := by
  unfold systemCall
  cases hcall : SystemCall.ofIndex? q.index with
  | none =>
    have hn : ¬IsCallIndex q.index := by
      rw [← SystemCall.isSome_ofIndex?_iff, hcall]
      exact nofun
    have h : q.Records old (.ok (-1)) [⟨errorTarget 0, -1⟩] := .unknown hn
    exact enters_note_bind (enters_setError_bind ht ⟨_, [], h⟩ h)
  | some call =>
    refine enters_note_bind ?_
    have hindex := SystemCall.index_eq hcall
    by_cases hget : call = .errorGet
    · subst hget
      exact enters_errorGet ht hindex
    by_cases hset : call = .errorSet
    · subst hset
      exact enters_errorSet ht hindex
    by_cases hexit : call = .exit
    · subst hexit
      exact enters_exit hs ht hindex
    · refine enters_ordinary he hb hs ht ⟨SystemCall.isCallIndex hcall, ?_, ?_, ?_⟩ hset hexit
      · exact fun h => hget (by rw [h] at hcall; exact (Option.some.inj hcall).symm)
      · exact fun h => hset (by rw [h] at hcall; exact (Option.some.inj hcall).symm)
      · exact fun h => hexit (by rw [h] at hcall; exact (Option.some.inj hcall).symm)

end Calls

end Exec

end BytecodeMachine
