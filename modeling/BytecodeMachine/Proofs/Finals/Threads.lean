import BytecodeMachine.Proofs.Finals.Calls
import BytecodeMachine.Proofs.Sessions

namespace BytecodeMachine

variable {α β : Type}

open InitState

namespace Exec

variable {e : Engine} {known : Known} {i : Nat} {t : Thread} {s : Scene}

section Step

theorem sealing_warn (m : Method) (steps : Nat) : Sealing known (fetch.warn m steps) := by
  refine .bind (.lift (Prog.isMild_read _).isSober) fun every => ?_
  split
  · exact .bind .get fun t => .lift (Prog.isSober_pass rfl)
  · exact .pure ()

theorem fetch_sealing (h : Upright [] i t s) :
    fetch.Meets (.sealing i) t (fun r t' s' => Honors i s t' s' ∧
      ∀ a, r = .ok a → ∃ k, t'.activation? = some ⟨k, a.1⟩) s := by
  unfold fetch
  rw [meets_bind, meets_get, after_ok]
  cases hf : t.frames with
  | nil => exact ⟨h.honors, fun _ ha => nomatch ha⟩
  | cons f rest =>
    obtain ⟨hown, hrest⟩ := Thread.owned_of_frames h.owned hf
    have swap (g : Frame) (hg : g.activation = f.activation) :
        Upright [] i { t with frames := g :: rest } s :=
      { h with owned := List.forall_mem_cons.2 ⟨hown.of_activation hg, hrest⟩ }
    dsimp only
    split
    · rw [meets_bind, meets_modify, after_ok]
      exact ⟨(swap { f with tossed := none } rfl).honors, fun _ ha => nomatch ha⟩
    · split
      · exact ⟨h.honors, fun _ ha => nomatch ha⟩
      · rename_i a ha
        split
        · exact ⟨h.honors, fun _ ha => nomatch ha⟩
        · rw [meets_bind, meets_modify, after_ok, meets_bind]
          have hw : Sealing [] (fetch.warn a.method (f.steps + 1)) := sealing_warn _ _
          refine ((hw i _ s (swap f.stepped rfl)).and_free (warn_kin _ _)).mono ?_
          rintro _ t' s' ⟨h', rfl, rfl⟩
          refine ⟨h', ?_⟩
          rintro _ ⟨⟩
          have ha' : f.stepped.activation = some a := ha
          exact ⟨a.klass, by rw [Thread.activation?, List.findSome?_cons, ha']⟩

theorem granted_pass {k : Class} {m : Method} (h : Upright [] i t s)
    (ha : t.activation? = some ⟨k, m⟩) (pc : Nat) (ref : FieldRef) :
    Granted i t (s.pass i (.noted (.step m.ref pc (.putStatic ref)))) := by
  have hp : s.Abides i (s.pass i (.noted (.step m.ref pc (.putStatic ref)))) :=
    Scene.abides_pass h.sane rfl
  rintro _ ha' hm
  cases ha.symm.trans ha'
  by_cases hi : s.Inside i k.name
  · obtain ⟨hn, ho⟩ := h.engaged _ hi
    exact .inr ⟨hp.busy ho _ hn, hp.owner ho⟩
  · have hown : m.owner = k.name := h.owned.activation ha
    refine .inl ⟨i, m.type, pc, ref, s.passed, ?_, hi⟩
    rw [← hown, ← hm]
    exact List.suffix_refl _

theorem sealing_step (he : e.IsSealing) : Sealing [] (step e) := by
  intro i t s h
  refine meets_bind.2 ((fetch_sealing h).mono fun r t1 s1 h1 => ?_)
  obtain ⟨h1, hact⟩ := h1
  cases r with
  | error trap => exact h1
  | ok a =>
    obtain ⟨k, hk⟩ := hact a rfl
    rw [after_ok]
    refine pass_sealing h1.abides.sane fun s2 hs2 hr2 => ?_
    have h2 := (h.next h1).next ⟨h1.id, h1.owned, hr2.abides hs2⟩
    have h3 : Honors i s2 t1 (s2.pass i (.noted (.step a.1.ref a.2.1 a.2.2))) :=
      ⟨h1.id, h1.owned, Scene.abides_pass hs2 rfl⟩
    have after := (h1.abides.trans (hr2.abides hs2)).trans h3.abides
    have hexec : (∃ ref, a.2.2 = .putStatic ref) ∨ Built e .every .call [] (execute e a.2.2) :=
      Built.execute a.2.2
    rcases hexec with ⟨ref, href⟩ | hb
    · rw [href] at h3 after ⊢
      have hg := granted_pass h2 hk a.2.1 ref
      exact (putStatic_sealing he (h2.next h3) hg ref).mono fun _ _ _ h4 => h4.after after
    · exact (hb.sealing he i t1 _ (h2.next h3)).mono fun _ _ _ h4 => h4.after after

end Step

section Throwing

theorem sealing_exitAllFrames : Sealing known exitAllFrames := by
  intro i t s h
  unfold exitAllFrames
  rw [meets_bind, meets_get, after_ok]
  have hp : Sealing known (note (.unwinding t.id t.depth)) := .lift (Prog.isSober_pass rfl)
  refine meets_bind.2 ((hp i t s h).mono fun r t1 s1 h1 => ?_)
  cases r with
  | error trap => exact h1
  | ok _ => exact ⟨h.id, fun _ hf => absurd hf List.not_mem_nil, h1.abides⟩

theorem sealing_reportFatal (he : e.IsSealing) (fault : Fault) :
    Sealing known (reportFatal fault) := by
  have write (headline : String) (frames : List String) :
      Sealing known (writeReport headline frames) := by
    have hb : Built e .every .host known (writeReport headline frames) := .writeReport _ _
    exact hb.sealing he
  have last : Sealing known (do
      exitAllFrames
      lift (.exit 1) : Exec Unit) :=
    .bind sealing_exitAllFrames fun _ => .lift (Prog.isMild_exit 1).isSober
  intro i t s h
  unfold reportFatal
  rw [meets_bind, meets_get, after_ok]
  split
  · exact h.honors
  · refine pass_sealing h.sane fun s1 hs1 hr1 => ?_
    have ha := (hr1.abides hs1).trans
      (Scene.abides_pass (x := .noted (.fatal t.name fault)) hs1 rfl)
    let reported : Thread := { t with fatalReported := true, fatalTrace := none }
    have hu : Upright known i reported _ := h.next ⟨h.id, h.owned, ha⟩
    rw [meets_bind, meets_set, after_ok]
    exact ((write _ _).bind (fun _ => last) i reported _ hu).mono fun _ _ _ h' => h'.after ha

theorem sealing_abort (he : e.IsSealing) (trap : Trap) (limit : Nat) :
    Sealing known (abort trap limit) := by
  have fatal (fault : Fault) : Sealing known (abort.abortFatal limit fault) := by
    refine .bind (.modify (fun _ => rfl) fun _ ho => ho) fun _ => ?_
    dsimp only
    split
    · exact .bind (sealing_reportFatal he fault) fun _ => .throw _
    · exact .throw _
  cases trap with
  | throw o => exact .throw _
  | raise cause => exact fatal _
  | fatal fault => exact fatal fault
  | exit =>
    unfold abort
    dsimp only
    split
    · exact .bind sealing_exitAllFrames fun _ => .throw _
    · exact .throw _

theorem Reporting.sealing (he : e.IsSealing) {x : Exec α} (h : Reporting e x) : Sealing [] x := by
  induction h with
  | built h => exact h.sealing he
  | bind _ _ ihx ihf => exact .bind ihx ihf
  | forget => exact .modify (fun _ => rfl) fun _ ho => ho
  | blame o => exact .modify (fun _ => rfl) fun _ ho => ho

theorem sealing_dispatch (he : e.IsSealing) (o : ObjectId) : Sealing [] (dispatch e o) := by
  intro i t s h
  unfold dispatch
  rw [meets_bind, meets_get, after_ok]
  cases hf : t.frames with
  | nil => exact h.honors
  | cons f rest =>
    obtain ⟨hown, hrest⟩ := Thread.owned_of_frames h.owned hf
    have hc : Built e .every .host [] (classOf o) := .classOf o
    have hh (c : Class) (handlers : List Handler) :
        Built e .every .host [] (findHandler c handlers) := .findHandler c handlers
    dsimp only
    split
    · exact ⟨h.id, List.forall_mem_cons.2 ⟨hown, hrest⟩, .refl i h.sane⟩
    · refine Sealing.bind (hc.sealing he) (fun c => ?_) i t s h
      refine .bind ((hh c _).sealing he) fun found => ?_
      cases found with
      | some target =>
        refine .bind (.lift (Prog.isSober_pass rfl)) fun _ => ?_
        exact .modify (fun _ => rfl) fun _ _ => List.forall_mem_cons.2 ⟨hown, hrest⟩
      | none =>
        refine .bind (.modify (fun _ => rfl) fun _ ho => ho) fun _ => ?_
        cases rest with
        | nil =>
          refine .bind (.modify (fun _ => rfl) fun _ _ _ hf => absurd hf List.not_mem_nil) ?_
          exact fun _ => (Reporting.uncaught o).sealing he
        | cons caller rest =>
          obtain ⟨hcaller, hrest⟩ := List.forall_mem_cons.1 hrest
          exact .modify (fun _ => rfl) fun _ _ => List.forall_mem_cons.2 ⟨hcaller, hrest⟩

theorem sealing_handleTrap (he : e.IsSealing) (trap : Trap) (limit : Nat) :
    Sealing [] (handleTrap e trap limit) := by
  have hb : Built e .every .host [] (handleTrap.thrown e trap) := .thrown trap
  refine .attempt_bind (hb.sealing he) fun r => ?_
  cases r with
  | error other => exact sealing_abort he other limit
  | ok o =>
    refine .attempt_bind (sealing_dispatch he o) fun r => ?_
    cases r with
    | error other => exact sealing_abort he other limit
    | ok _ => exact .pure ()

end Throwing

theorem sealing_run (he : e.IsSealing) (limit : Nat) : Sealing [] (run e limit) := by
  refine .bind .get fun t => ?_
  split
  · exact .pure ()
  · refine .bind (.lift Prog.isMild_turn.isSober) fun _ => ?_
    refine .bind (.bind .get fun t => .lift (Prog.isMild_read _).isSober) fun stop => ?_
    split
    · exact sealing_abort he .exit limit
    · refine .attempt_bind (sealing_step he) fun r => ?_
      cases r with
      | ok _ => exact he.run limit
      | error trap =>
        refine .bind (.lift (Prog.isSober_pass rfl)) fun _ => ?_
        exact .bind (sealing_handleTrap he trap limit) fun _ => he.run limit

section Sessions

theorem sealing_ended (he : e.IsSealing) (outcome : Except Trap Unit) :
    Sealing [] (ended outcome) := by
  have fatal (fault : Fault) : Sealing [] (do
      reportFatal fault
      pure (.error (.fatal fault)) : Exec (Except RunError Unit)) :=
    .bind (sealing_reportFatal he fault) fun _ => .pure _
  have other (trap : Trap) : Sealing [] (do
      let shown ← read fun m => m.shownTrap trap
      reportFatal (.couldNotRaiseTrap shown)
      pure (.error (.fatal (.couldNotRaiseTrap shown))) : Exec (Except RunError Unit)) :=
    .bind (.lift (Prog.isMild_read _).isSober) fun shown => fatal _
  rcases outcome with trap | ⟨⟩
  · cases trap with
    | fatal fault => exact fatal fault
    | throw o => exact other _
    | raise cause => exact other _
    | exit =>
      refine .bind sealing_exitAllFrames fun _ => ?_
      refine .bind (.lift (Prog.isMild_read _).isSober) fun status => ?_
      cases status with
      | none => exact .pure _
      | some code => exact .pure _
  · refine .bind .get fun t => ?_
    split
    · exact .pure _
    · rename_i o _
      have hc : Built e .every .host [] (classOf o) := .classOf o
      exact .bind (hc.sealing he) fun c => .pure _

theorem sealing_runEntry (he : e.IsSealing) (p : EntryPoint) (arguments : List String) :
    Sealing [] (runEntry e p arguments) := by
  have enter : Built e .every .call [] (enterEntry e p arguments) := .enterEntry p arguments
  refine .attempt_bind (.bind (enter.sealing he) fun _ => he.run 0) fun r => ?_
  exact .attempt_bind ((Reporting.settle r).sealing he) fun r => sealing_ended he r

theorem sealing_serve (he : e.IsSealing) (demands : List Demand) :
    Sealing [] (serve e demands) := by
  induction demands with
  | nil => exact .pure ()
  | cons d rest ih =>
    refine .attempt_bind ?_ fun _ => ih
    cases d with
    | entry p arguments => exact .bind (sealing_runEntry he p arguments) fun _ => .pure ()
    | setUp n => exact (Built.answer_setUp n).sealing he
    | call ref arguments => exact (Built.answer_call ref arguments).sealing he

end Sessions

end Exec

theorem Engine.isSealing_bounded (bound : Nat) : (bounded bound).IsSealing := by
  induction bound with
  | zero => exact ⟨fun _ _ _ _ _ => trivial, fun _ _ _ _ _ _ => trivial, fun _ _ _ _ _ => trivial⟩
  | succ bound ih =>
    constructor
    · exact fun c => Exec.sealing_setUp ih c
    · intro m arguments
      have hb : Exec.Built (bounded bound) .every .host []
          (Exec.callNative (bounded bound) m arguments) := .callNative m arguments
      exact hb.sealing ih
    · exact fun limit => Exec.sealing_run ih limit

end BytecodeMachine
