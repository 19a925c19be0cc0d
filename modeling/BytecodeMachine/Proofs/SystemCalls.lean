import BytecodeMachine.Proofs.Callers
import BytecodeMachine.Proofs.Initialization
import BytecodeMachine.Proofs.SystemCalls.Entering

namespace BytecodeMachine

def Exec.request (e : Engine) (q : SystemRequest) : Exec Int32 := systemCall e q.index q.arguments

structure Machine.Omits (i : Nat) (m m' : Machine) : Prop where
  orderly : m.Orderly → m'.Orderly
  errors : m'.errors? i = m.errors? i

theorem Machine.Respects.omits {i j : Nat} {m m' : Machine} (h : m.Respects j m') (hij : i ≠ j) :
    m.Omits i m' :=
  ⟨fun _ => h.orderly, h.errors i hij⟩

def Prog.Omits {α : Type} (i : Nat) : Prog α → Prop
  | .done _ => True
  | .step f next => ∀ m : Machine, m.Orderly → m.Omits i (f m).2 ∧ (next (f m).1).Omits i
  | .sign _ next => next.Omits i
  | .wait _ next => ∀ w, (next w).Omits i
  | .starved => True

theorem Prog.Raises.omits {α : Type} {i j : Nat} {p : Prog α} {Q : α → Prop}
    {kept l : List Newborn} (h : p.Raises j Q kept l) (hij : i ≠ j) : p.Omits i := by
  induction p generalizing l with
  | done a => trivial
  | step f next ih =>
    intro m hm
    obtain ⟨hrespects, -, l2, -, -, hn⟩ := h m hm
    exact ⟨hrespects.omits hij, ih _ hn⟩
  | sign x next ih => exact ih h
  | wait b next ih => exact fun w => ih w (h w)
  | starved => trivial

inductive ErrorLog.Explains (i : Nat) : List (Reply SystemRequest Int32) → ErrorLog → Prop
  | none : Explains i [] []
  | other {rs : List (Reply SystemRequest Int32)} {l : ErrorLog} {r : Reply SystemRequest Int32}
      (h : Explains i rs l) (hr : r.thread ≠ i) : Explains i (rs ++ [r]) l
  | own {rs : List (Reply SystemRequest Int32)} {l new : ErrorLog} {r : Reply SystemRequest Int32}
      (h : Explains i rs l) (hr : r.thread = i) (hn : r.call.Records l r.outcome new) :
      Explains i (rs ++ [r]) (new ++ l)

namespace Callers

structure Ledger (c : Callers SystemRequest Int32) (i : Nat) (old new : ErrorLog) : Prop where
  replies : ErrorLog.Explains i c.replies old
  idle : c.pending i = none → new = []
  begun : ∀ p, c.pending i = some p → p.call.Begins old new

structure Accounts (c : Callers SystemRequest Int32) (m : Machine) (i : Nat) (l : ErrorLog) :
    Prop where
  table : m.errors? i = some (ErrorLog.table l)
  ledger : ∃ old new, l = new ++ old ∧ c.Ledger i old new

def Logging (serve : SystemRequest → Exec Int32) (outside : Machine → Machine → Prop) (i : Nat)
    (x y : (Callers SystemRequest Int32 × Scene) × ErrorLog) : Prop :=
  Step serve outside x.1 y.1 ∧ x.2 <:+ y.2 ∧ y.1.1.Accounts y.1.2.machine i y.2

structure Entering (c : Callers SystemRequest Int32) (s : Scene) (i : Nat) (old new : ErrorLog) :
    Prop extends Ledger c i old new where
  orderly : s.machine.Orderly
  table : s.machine.errors? i = some (ErrorLog.table (new ++ old))
  raises : ∀ j p, c.pending j = some p →
    ∃ newborns, p.rest.Raises j (fun _ => True) [] newborns
  enters : ∀ p, c.pending i = some p →
    p.rest.Enters i (p.call.Begins old) old (fun r new => p.call.Records old r.1 new) new

namespace Entering

variable {c c' : Callers SystemRequest Int32} {s s' : Scene} {i j : Nat} {old new : ErrorLog}
  {p : OpenCall SystemRequest Int32}

theorem accounts (h : c.Entering s i old new) : c.Accounts s.machine i (new ++ old) :=
  ⟨h.table, old, new, rfl, h.toLedger⟩

theorem respects (h : c.Entering s i old new) (hj : c.pending j = some p)
    {q : Prog (Except Trap Int32 × Thread)} (hm : p.rest.Moves j s q s') :
    s.machine.Respects j s'.machine ∧ ∃ newborns, q.Raises j (fun _ => True) [] newborns := by
  obtain ⟨newborns, hr⟩ := h.raises j p hj
  obtain ⟨hrespects, -, l, -, -, hq⟩ := hr.moves hm h.orderly
  exact ⟨hrespects, l, hq⟩

theorem call {e : Engine} (he : e.Quiet) (hb : e.Balanced) (hw : e.Woven)
    (h : c.Entering s i old new) (q : SystemRequest) (t : Thread) (ht : c.pending t.id = none) :
    (c.begin t.id q ((Exec.request e q).on t)).Entering s i old new := by
  have hbuilt : Exec.Built e .every .host [] (Exec.request e q) := .systemCall q.index q.arguments
  refine ⟨⟨h.replies, fun hi => h.idle (eq_none_of_update hi), fun p hi => ?_⟩, h.orderly, h.table,
    fun j p hj => ?_, fun p hi => ?_⟩
  · rcases pending_begin hi with ⟨rfl, rfl⟩ | ⟨-, hi⟩
    · rw [h.idle ht]
      exact q.begins_nil old
    · exact h.begun p hi
  · rcases pending_begin hj with ⟨rfl, rfl⟩ | ⟨-, hj⟩
    · exact ⟨[], ((hbuilt.woven hw).raises t rfl).mono List.suffix_rfl fun _ _ => trivial⟩
    · exact h.raises j p hj
  · rcases pending_begin hi with ⟨rfl, rfl⟩ | ⟨-, hi⟩
    · rw [h.idle ht]
      exact Exec.enters_systemCall he hb h.orderly rfl q old
    · exact h.enters p hi

theorem move_own (h : c.Entering s i old new) (hi : c.pending i = some p)
    {q : Prog (Except Trap Int32 × Thread)} (hm : p.rest.Moves i s q s') :
    ∃ more, (c.goOn i p q).Entering s' i old (more ++ new) := by
  obtain ⟨hrespects, hraises⟩ := h.respects hi hm
  obtain ⟨more, hbegins, htable, hq⟩ :=
    (h.enters p hi).moves hm h.orderly h.table (h.begun p hi)
  refine ⟨more, ⟨h.replies, fun hn => ?_, fun x hx => ?_⟩, hrespects.orderly, htable,
    fun j x hj => ?_, fun x hx => ?_⟩
  · have := eq_none_of_update hn
    rw [hi] at this
    cases this
  · rcases pending_goOn hx with ⟨-, rfl⟩ | ⟨hne, -⟩
    · exact hbegins
    · exact absurd rfl hne
  · rcases pending_goOn hj with ⟨rfl, rfl⟩ | ⟨-, hj⟩
    · exact hraises
    · exact h.raises j x hj
  · rcases pending_goOn hx with ⟨-, rfl⟩ | ⟨hne, -⟩
    · exact hq
    · exact absurd rfl hne

theorem move_other (h : c.Entering s i old new) (hj : c.pending j = some p) (hne : j ≠ i)
    {q : Prog (Except Trap Int32 × Thread)} (hm : p.rest.Moves j s q s') :
    (c.goOn j p q).Entering s' i old new := by
  obtain ⟨hrespects, hraises⟩ := h.respects hj hm
  have same {x : OpenCall SystemRequest Int32} (hx : (c.goOn j p q).pending i = some x) :
      c.pending i = some x := by
    rcases pending_goOn hx with ⟨he, -⟩ | ⟨-, hx⟩
    · exact absurd he.symm hne
    · exact hx
  refine ⟨⟨h.replies, fun hn => h.idle (eq_none_of_update hn), fun x hx => h.begun x (same hx)⟩,
    hrespects.orderly, (hrespects.errors i hne.symm).trans h.table, fun k x hk => ?_,
    fun x hx => h.enters x (same hx)⟩
  rcases pending_goOn hk with ⟨rfl, rfl⟩ | ⟨-, hk⟩
  · exact hraises
  · exact h.raises k x hk

theorem reply_own (h : c.Entering s i old new) (hi : c.pending i = some p)
    {outcome : Except Trap Int32} {t : Thread} (hp : p.rest = .done (outcome, t)) :
    (c.reply i p outcome).Entering s i (new ++ old) [] := by
  have hrecords := h.enters p hi
  rw [hp] at hrecords
  have idle {x : OpenCall SystemRequest Int32} (hx : (c.reply i p outcome).pending i = some x) :
      False :=
    (pending_reply hx).1 rfl
  exact ⟨⟨.own h.replies rfl hrecords, fun _ => rfl, fun x hx => (idle hx).elim⟩, h.orderly, h.table,
    fun j x hj => h.raises j x (pending_reply hj).2, fun x hx => (idle hx).elim⟩

theorem reply_other (h : c.Entering s i old new) (hj : j ≠ i) {outcome : Except Trap Int32} :
    (c.reply j p outcome).Entering s i old new := by
  have same : (c.reply j p outcome).pending i = c.pending i := Function.update_of_ne hj.symm ..
  exact ⟨⟨.other h.replies hj, fun hn => h.idle (same ▸ hn), fun x hx => h.begun x (same ▸ hx)⟩,
    h.orderly, h.table, fun k x hk => h.raises k x (pending_reply hk).2,
    fun x hx => h.enters x (same ▸ hx)⟩

theorem outside (h : c.Entering s i old new) {m : Machine} (hm : s.machine.Omits i m) :
    c.Entering (s.become m) i old new :=
  ⟨h.toLedger, hm.orderly h.orderly, hm.errors.trans h.table, h.raises, h.enters⟩

theorem step {e : Engine} (he : e.Quiet) (hb : e.Balanced) (hw : e.Woven)
    (h : c.Entering s i old new)
    (hs : Step (Exec.request e) (Machine.Omits i) (c, s) (c', s')) :
    ∃ old' new', new ++ old <:+ new' ++ old' ∧ c'.Entering s' i old' new' := by
  cases hs with
  | call q t ht => exact ⟨old, new, List.suffix_rfl, h.call he hb hw q t ht⟩
  | move j hj hm =>
    by_cases hji : j = i
    · subst hji
      obtain ⟨more, hmore⟩ := h.move_own hj hm
      exact ⟨old, more ++ new, ⟨more, (List.append_assoc ..).symm⟩, hmore⟩
    · exact ⟨old, new, List.suffix_rfl, h.move_other hj hji hm⟩
  | reply j hj hp =>
    by_cases hji : j = i
    · subst hji
      exact ⟨new ++ old, [], List.suffix_rfl, h.reply_own hj hp⟩
    · exact ⟨old, new, List.suffix_rfl, h.reply_other hji⟩
  | outside hm => exact ⟨old, new, List.suffix_rfl, h.outside hm⟩

theorem run {e : Engine} (he : e.Quiet) (hb : e.Balanced) (hw : e.Woven)
    (h : c.Entering s i old new)
    (hr : Run (Exec.request e) (Machine.Omits i) (c, s) (c', s')) :
    ∃ old' new', Relation.ReflTransGen (Logging (Exec.request e) (Machine.Omits i) i)
      ((c, s), new ++ old) ((c', s'), new' ++ old') ∧ c'.Entering s' i old' new' := by
  generalize hx : (c', s') = x at hr
  induction hr generalizing c' s' with
  | refl =>
    cases hx
    exact ⟨old, new, .refl, h⟩
  | tail _ hs ih =>
    subst hx
    obtain ⟨old1, new1, hlog, h1⟩ := ih rfl
    obtain ⟨old2, new2, hgrows, h2⟩ := h1.step he hb hw hs
    exact ⟨old2, new2, hlog.tail ⟨hs, hgrows, h2.accounts⟩, h2⟩

end Entering

theorem entering_idle {s : Scene} {i : Nat} (hs : s.machine.Orderly)
    (hi : s.machine.errors? i = some (ErrorLog.table [])) : idle.Entering s i [] [] where
  replies := .none
  idle _ := rfl
  begun _ hp := nomatch hp
  orderly := hs
  table := hi
  raises _ _ hp := nomatch hp
  enters _ hp := nomatch hp

end Callers

theorem Machine.errors?_register (r : ThreadRecord) (m : Machine) :
    (m.register r).errors? r.id = some r.errors := by
  simp only [errors?, record?, register, note, Entries.get?_put, if_true, Option.map_some]

def Scene.registering (i : Nat) (name : String) (exiting : Bool) (s : Scene) : Scene :=
  s.become (s.machine.register { ThreadRecord.start i name with terminate := exiting })

theorem Scene.errors?_registering (i : Nat) (name : String) (exiting : Bool) (s : Scene) :
    (s.registering i name exiting).machine.errors? i = some (ErrorLog.table []) := by
  rw [ErrorLog.table_nil]
  exact Machine.errors?_register { ThreadRecord.start i name with terminate := exiting } s.machine

theorem Engine.errors_accounted (bound i : Nat) (name : String) (exiting : Bool) {s0 s : Scene}
    {c : Callers SystemRequest Int32} (h0 : s0.machine.Orderly)
    (hr : Callers.Run (Exec.request (bounded bound)) (Machine.Omits i)
      (.idle, s0.registering i name exiting) (c, s)) :
    (∃ l, c.Accounts s.machine i l ∧
      Relation.ReflTransGen
        (Callers.Logging (Exec.request (bounded bound)) (Machine.Omits i) i)
        ((.idle, s0.registering i name exiting), []) ((c, s), l)) ∧
    (∀ j p q s', i ≠ j → c.pending j = some p → p.rest.Moves j s q s' →
      s.machine.Omits i s'.machine) ∧
    ∀ (t : Thread) (demands : List Demand), i ≠ t.id →
      ((Exec.serve (bounded bound) demands).on t).Omits i := by
  have hstart : Callers.idle.Entering (s0.registering i name exiting) i [] [] :=
    Callers.entering_idle ⟨h0.libraries, h0.closed⟩ (s0.errors?_registering i name exiting)
  obtain ⟨old, new, hlog, h⟩ :=
    hstart.run (quiet_bounded bound) (balanced_bounded bound) (woven_bounded bound) hr
  refine ⟨⟨new ++ old, h.accounts, hlog⟩, fun j p q s' hij hj hm => (h.respects hj hm).1.omits hij,
    fun t demands hij => ?_⟩
  exact ((Exec.woven_serve (woven_bounded bound) demands).raises t rfl).omits hij

theorem Engine.errors_accounted_of_unknown :
    let s0 := Scene.start [] .standard .standard .sound .sound (.ofVerbosity none)
    ∃ c s l, Callers.Run (Exec.request (bounded 1)) (Machine.Omits 1)
        (.idle, s0.registering 1 "main" false) (c, s) ∧
      c.replies = [⟨1, ⟨99, []⟩, 0, .ok (-1)⟩, ⟨1, ⟨1, [0]⟩, 1, .ok (-1)⟩] ∧
      c.Accounts s.machine 1 l ∧ ErrorLog.code l (errorTarget 0) = -1 := by
  intro s0
  have h0 : s0.machine.Orderly := ⟨⟨[], rfl⟩, ClassTable.closed_nil _⟩
  let t : Thread := .start 1 "main"
  let missing : ErrorLog := [⟨errorTarget 0, -1⟩]
  have first {s : Scene} (hs : s.machine.errors? 1 = some (ErrorLog.table [])) :
      (Exec.request (bounded 1) ⟨99, []⟩).Ends t.id t (fun r _ s => r = .ok (-1) ∧
        s.machine.errors? 1 = some missing.table) s :=
    ⟨rfl, Machine.errors?_setError_table hs 0 (-1)⟩
  have second {s : Scene} (hs : s.machine.errors? 1 = some missing.table) :
      (Exec.request (bounded 1) ⟨1, [0]⟩).Ends t.id t (fun r _ s => r = .ok (-1) ∧
        s.machine.errors? 1 = some (ErrorLog.table (⟨errorTarget 1, 0⟩ :: missing))) s :=
    ⟨congrArg Except.ok (Machine.error_of_errors? hs 0), Machine.errors?_setError_table hs 1 0⟩
  obtain ⟨_, _, s1, ⟨rfl, h1⟩, hrun1⟩ := Callers.run_of_ends (Machine.Omits 1) (c := .idle) rfl
    (first (s0.errors?_registering 1 "main" false))
  obtain ⟨_, _, s2, ⟨rfl, h2⟩, hrun2⟩ :=
    Callers.run_of_ends (Machine.Omits 1) (c := ⟨fun _ => none, [_]⟩) rfl (second h1)
  have hrun := hrun1.trans hrun2
  obtain ⟨⟨l, hl, -⟩, -⟩ := errors_accounted 1 1 "main" false h0 hrun
  have htable := Option.some.inj (hl.table.symm.trans h2)
  have hcode : ErrorLog.code l (errorTarget 0) = -1 := by
    rw [← ErrorLog.getElem_table, htable, ErrorLog.getElem_table]
    decide
  exact ⟨_, s2, l, hrun, rfl, hl, hcode⟩

end BytecodeMachine
