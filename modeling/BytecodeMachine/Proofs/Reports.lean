import BytecodeMachine.Proofs.Trail
import BytecodeMachine.Proofs.Unwinding

namespace BytecodeMachine

variable {α β : Type}

namespace Scene

def traps (i : Nat) (s : Scene) : Nat := (s.own i).countP Sign.isTrapped

theorem traps_pass (i : Nat) (x : Sign) (s : Scene) : s.traps i ≤ (s.pass i x).traps i := by
  rw [traps, traps, own_pass, List.countP_cons]
  exact Nat.le_add_right _ _

theorem traps_pass_trapped (i : Nat) (trap : Trap) (s : Scene) :
    s.traps i < (s.pass i (.trapped trap)).traps i := by
  rw [traps, traps, own_pass, List.countP_cons_of_pos rfl]
  exact Nat.lt_succ_self _

theorem traps_of_own {i : Nat} {s s' : Scene} (h : s'.own i = s.own i) : s'.traps i = s.traps i := by
  rw [traps, h, traps]

end Scene

def Contract.listening (i : Nat) : Contract where
  thread := i
  rely s s' := s'.own i = s.own i
  guarantee s s' := ∀ j, j ≠ i → s'.own j = s.own j

theorem Contract.listening_compatible {i j : Nat} (h : i ≠ j) {s s' : Scene}
    (hg : (listening i).guarantee s s') : (listening j).rely s s' :=
  hg j h.symm

theorem Prog.meets_listening {i : Nat} {Q : α → Scene → Prop} {p : Prog α} {s : Scene}
    (h : ∀ a s', s.traps i ≤ s'.traps i → Q a s') : p.Meets (.listening i) Q s := by
  induction p generalizing s with
  | done a => exact h a s (Nat.le_refl _)
  | step f next ih =>
    intro s' hr
    have hs : s.traps i ≤ s'.traps i := Nat.le_of_eq (Scene.traps_of_own hr).symm
    exact ⟨fun _ _ => rfl, ih _ fun a s'' hs'' => h a s'' (Nat.le_trans hs hs'')⟩
  | sign x next ih =>
    intro s' hr
    have hs : s.traps i ≤ s'.traps i := Nat.le_of_eq (Scene.traps_of_own hr).symm
    refine ⟨fun j hj => Scene.own_pass_of_ne hj, ih fun a s'' hs'' => h a s'' ?_⟩
    exact Nat.le_trans (Nat.le_trans hs (Scene.traps_pass i x s')) hs''
  | wait b next ih =>
    intro s' w m hr _
    have hs : s.traps i ≤ s'.traps i := Nat.le_of_eq (Scene.traps_of_own hr).symm
    exact ⟨fun _ _ => rfl, ih w fun a s'' hs'' => h a s'' (Nat.le_trans hs hs'')⟩
  | starved => trivial

namespace Exec

structure Untouched (i : Nat) (t : Thread) (s : Scene) (t' : Thread) (s' : Scene) : Prop where
  traps : s.traps i ≤ s'.traps i
  unwound : s'.traps i = s.traps i → t'.unwound = t.unwound

theorem Untouched.of_unwound {i : Nat} {t t' : Thread} {s s' : Scene} (ht : s.traps i ≤ s'.traps i)
    (h : t'.unwound = t.unwound) : Untouched i t s t' s' :=
  ⟨ht, fun _ => h⟩

theorem Untouched.of_lt {i : Nat} {t t' : Thread} {s s' : Scene} (h : s.traps i < s'.traps i) :
    Untouched i t s t' s' :=
  ⟨Nat.le_of_lt h, fun heq => absurd heq (Nat.ne_of_gt h)⟩

theorem Untouched.trans {i : Nat} {t1 t2 t3 : Thread} {s1 s2 s3 : Scene}
    (h : Untouched i t1 s1 t2 s2) (h' : Untouched i t2 s2 t3 s3) : Untouched i t1 s1 t3 s3 := by
  refine ⟨Nat.le_trans h.traps h'.traps, fun heq => ?_⟩
  have heq2 : s2.traps i = s1.traps i := Nat.le_antisymm (heq ▸ h'.traps) h.traps
  exact (h'.unwound (heq.trans heq2.symm)).trans (h.unwound heq2)

def Discreet (x : Exec α) : Prop :=
  ∀ (i : Nat) (t : Thread) (s : Scene),
    x.Meets (.listening i) t (fun _ t' s' => Untouched i t s t' s') s

theorem meets_listening {i : Nat} {t : Thread} {s : Scene} {Q : Post α} {x : Exec α}
    (h : ∀ r t' s', s.traps i ≤ s'.traps i → Q r t' s') : x.Meets (.listening i) t Q s :=
  Prog.meets_listening fun r s' hs => h r.1 r.2 s' hs

namespace Discreet

theorem pure (a : α) : Discreet (Pure.pure a) :=
  fun _ _ _ => .of_unwound (Nat.le_refl _) rfl

theorem throw (trap : Trap) : Discreet (MonadExcept.throw trap : Exec α) :=
  fun _ _ _ => .of_unwound (Nat.le_refl _) rfl

theorem get : Discreet (MonadState.get : Exec Thread) :=
  fun _ _ _ => .of_unwound (Nat.le_refl _) rfl

theorem modify {f : Thread → Thread} (h : ∀ t, (f t).unwound = t.unwound) :
    Discreet (modify f : Exec PUnit) :=
  fun _ t _ => .of_unwound (Nat.le_refl _) (h t)

theorem bind {x : Exec α} {f : α → Exec β} (hx : Discreet x) (hf : ∀ a, Discreet (f a)) :
    Discreet (x >>= f) := by
  intro i t s
  refine meets_bind.2 ((hx i t s).mono fun r t1 s1 h => ?_)
  cases r with
  | ok a => exact (hf a i t1 s1).mono fun _ _ _ h' => h.trans h'
  | error trap => exact h

theorem attempt {x : Exec α} (hx : Discreet x) : Discreet (attempt x) :=
  fun i t s => meets_attempt.2 (hx i t s)

theorem lift (p : Prog α) : Discreet (Exec.lift p) :=
  fun _ _ _ => meets_lift.2 (Prog.meets_listening fun _ _ hs => .of_unwound hs rfl)

theorem ofTrap (r : Except Trap α) : Discreet (Exec.ofTrap r) := by
  cases r with
  | ok a => exact pure a
  | error trap => exact throw trap

theorem ending {x : Exec α} {after : Exec Unit} (hx : Discreet x) (h : Discreet after) :
    Discreet (x.ending after) :=
  bind hx.attempt fun r => bind h fun _ => ofTrap r

theorem locked {x : Exec α} (hx : Discreet x) : Discreet (Exec.locked x) :=
  bind get fun _ => bind (lift _) fun _ => hx.ending (lift _)

theorem resolve (res : List Library → Resolving α) : Discreet (Exec.resolve res) := by
  refine bind (lift _) fun r => ?_
  cases r with
  | ok a => exact pure a
  | error err => exact throw _

theorem inFrame (action : FrameM α) : Discreet (Exec.inFrame action) := by
  refine bind get fun t => ?_
  split
  · exact throw _
  · exact bind (modify fun _ => rfl) fun _ => ofTrap _

-- After the sign of a trap nothing more is promised.
theorem of_trapped (trap : Trap) (x : Exec α) :
    Discreet (do
      pass (.trapped trap)
      x) := by
  intro i t s
  rw [meets_bind, pass, meets_lift]
  refine fun s' hr => ⟨fun j hj => Scene.own_pass_of_ne hj, ?_⟩
  change x.Meets (.listening i) t (fun _ t' s' => Untouched i t s t' s') (s'.pass i (.trapped trap))
  refine meets_listening fun r t' s'' hs => Untouched.of_lt (Nat.lt_of_lt_of_le ?_ hs)
  rw [← Scene.traps_of_own hr]
  exact Scene.traps_pass_trapped i trap s'

end Discreet

end Exec

structure Engine.IsDiscreet (e : Engine) : Prop where
  setUp : ∀ c, (e.setUp c).Discreet
  native : ∀ m arguments, (e.native m arguments).Discreet
  run : ∀ limit, (e.run limit).Discreet

namespace Exec

variable {e : Engine}

section Calls

theorem discreet_enterFrame (c : Class) (m : Method) (arguments : List Value) :
    (enterFrame c m arguments).Discreet := by
  have next : (do
      let f ← ofExcept (Frame.enter c m arguments)
      modify (·.push f) : Exec Unit).Discreet := by
    cases Frame.enter c m arguments with
    | ok f => exact .bind (.pure f) fun _ => .modify fun _ => rfl
    | error fault => exact .throw _
  refine .bind (.lift _) fun b => ?_
  dsimp only
  split
  · exact .bind .get fun _ => .bind (.lift _) fun _ => next
  · exact next

theorem discreet_enterMethod (he : e.IsDiscreet) (c : Class) (m : Method)
    (arguments : List Value) : (enterMethod e c m arguments).Discreet := by
  unfold enterMethod
  split
  · refine .bind (he.native m arguments) fun v => ?_
    cases v with
    | none => exact .pure ()
    | some v => exact .inFrame _
  · split
    · exact .throw _
    · exact discreet_enterFrame c m arguments

theorem discreet_takeResult : takeResult.Discreet := by
  refine .bind .get fun t => ?_
  split
  · exact .throw _
  · refine .bind (.modify fun _ => rfl) fun _ => ?_
    split
    · exact .throw _
    · exact .pure _

theorem discreet_invokeMethod (he : e.IsDiscreet) (c : Class) (m : Method)
    (arguments : List Value) : (invokeMethod e c m arguments).Discreet := by
  refine .bind (.lift _) fun _ => .bind .get fun t => .bind (.modify fun _ => rfl) fun _ => ?_
  have body := Discreet.bind (discreet_enterMethod he c m arguments) fun _ => he.run (t.depth + 1)
  refine .bind body.attempt fun r => ?_
  cases r with
  | ok _ => exact discreet_takeResult
  | error trap => exact .bind (.modify fun _ => rfl) fun _ => .throw trap

theorem discreet_deliver (v : Option Value) (rest : Frames) :
    (match v, rest with
      | some v, _ :: _ => push v
      | _, _ => pure () : Exec Unit).Discreet := by
  split
  · exact .inFrame _
  · exact .pure ()

theorem discreet_returnFrom (hasValue : Bool) : (returnFrom hasValue).Discreet := by
  refine .bind .get fun t => ?_
  rcases t.frames with _ | ⟨f, rest⟩
  · exact .throw _
  · refine .bind (.modify fun _ => rfl) fun _ => ?_
    dsimp only
    generalize (if hasValue = true then f.stack.head? else none) = v
    split
    · exact .throw _
    · split
      · split
        · exact .throw _
        · exact discreet_deliver v rest
      · exact discreet_deliver v rest

theorem Built.discreet (he : e.IsDiscreet) {z : Realm} {r : Reach} {known : Known} {x : Exec α}
    (h : Built e z r known x) : x.Discreet := by
  induction h with
  | pure a => exact .pure a
  | throw trap => exact .throw trap
  | bind _ _ ihx ihf => exact .bind ihx ihf
  | get => exact .get
  | modify h => exact .modify fun t => (h t).unwound
  | lift h => exact .lift _
  | enroll => exact .bind (.lift _) fun _ => .lift _
  | keep c text _ ih => exact .bind (.lift _) fun o => .bind (ih o) fun _ => .lift _
  | report index code => exact .bind .get fun _ => .lift _
  | looking h => exact .lift _
  | resolving h _ ihf => exact .bind (.resolve _) ihf
  | locked _ ih => exact .locked ih
  | setUp hc hz => exact he.setUp _
  | invoke arguments ho hz => exact discreet_invokeMethod he _ _ arguments
  | recover _ ok caught passed ihx ihok ihcaught =>
    refine .bind ihx.attempt fun r => ?_
    cases r with
    | ok a => exact ihok a
    | error trap =>
      cases ht : trap.isCatchable with
      | true => exact ihcaught trap ht
      | false =>
        obtain ⟨g, hg, hf⟩ := passed trap ht
        rw [hf]
        exact .bind (.modify fun t => (hg t).unwound) fun _ => .throw trap
  | frame action ha => exact .inFrame action
  | enter arguments ho hz => exact discreet_enterMethod he _ _ arguments
  | leave hasValue => exact discreet_returnFrom hasValue

theorem Storing.discreet (he : e.IsDiscreet) {r : Reach} {x : Exec α} (h : Storing e r x) :
    x.Discreet := by
  induction h with
  | built h => exact h.discreet he
  | bind _ _ ihx ihf => exact .bind ihx ihf
  | store f v => exact .locked (.lift _)

end Calls

section SetUp

theorem discreet_setUpAll (he : e.IsDiscreet) (cs : List Class) : (setUpAll e cs).Discreet := by
  induction cs with
  | nil => exact .pure ()
  | cons c rest ih => exact .bind (he.setUp c) fun _ => ih

theorem discreet_runSetup (he : e.IsDiscreet) (c : Class) : (runSetup e c).Discreet := by
  refine .bind ((Storing.seed c.fields).discreet he) fun _ => .bind (discreet_setUpAll he _) fun _ => ?_
  split
  · exact .pure ()
  · refine .bind (.lift _) fun _ => ?_
    exact .bind (discreet_invokeMethod he c _ []) fun _ => .pure ()

theorem discreet_setUpOnce (he : e.IsDiscreet) (c : Class) : (setUpOnce e c).Discreet := by
  refine .bind (.lift _) fun _ => .bind (.lift _) fun _ => ?_
  refine .bind (discreet_runSetup he c).attempt fun r => ?_
  have finish : (do
      update (·.setInitState c.name .initialized)
      note (.initialized c.name)
      ofTrap r : Exec Unit).Discreet :=
    .bind (.lift _) fun _ => .bind (.lift _) fun _ => .ofTrap r
  dsimp only
  split
  · exact .bind (.lift _) fun _ => finish
  · exact finish

theorem discreet_setUp (he : e.IsDiscreet) (c : Class) : (setUp e c).Discreet := by
  refine .ending (.bind (.lift _) fun state => ?_) (.lift _)
  split
  · refine .locked (.bind (.lift _) fun state => ?_)
    split
    · exact discreet_setUpOnce he c
    · exact .pure ()
  · exact .pure ()

end SetUp

section Step

theorem discreet_warn (m : Method) (steps : Nat) : (fetch.warn m steps).Discreet := by
  refine .bind (.lift _) fun every => ?_
  split
  · exact .bind .get fun _ => .lift _
  · exact .pure ()

theorem discreet_fetch : fetch.Discreet := by
  refine .bind .get fun t => ?_
  split
  · exact .throw _
  · split
    · exact .bind (.modify fun _ => rfl) fun _ => .throw _
    · split
      · exact .throw _
      · split
        · exact .throw _
        · exact .bind (.modify fun _ => rfl) fun _ => .bind (discreet_warn _ _) fun _ => .pure _

theorem discreet_step (he : e.IsDiscreet) : (step e).Discreet := by
  refine .bind discreet_fetch fun ⟨m, pc, i⟩ => .bind (.lift _) fun _ => ?_
  exact (Storing.execute i).discreet he

theorem discreet_exitAllFrames : exitAllFrames.Discreet := by
  intro i t s
  unfold exitAllFrames
  rw [meets_bind, meets_get, after_ok, meets_bind]
  exact (Discreet.lift _ i t s).mono fun r t1 s1 h => by
    cases r with
    | ok _ => exact .of_unwound h.traps rfl
    | error trap => exact h

theorem discreet_exit (limit : Nat) : (abort .exit limit).Discreet := by
  unfold abort
  dsimp only
  split
  · exact .bind discreet_exitAllFrames fun _ => .throw _
  · exact .throw _

theorem discreet_run (he : e.IsDiscreet) (limit : Nat) : (run e limit).Discreet := by
  refine .bind .get fun t => ?_
  split
  · exact .pure ()
  · refine .bind (.lift _) fun _ => .bind (.bind .get fun t => .lift _) fun stop => ?_
    split
    · exact discreet_exit limit
    · refine .bind (discreet_step he).attempt fun r => ?_
      cases r with
      | ok _ => exact he.run limit
      | error trap =>
        exact .of_trapped trap _

end Step

end Exec

theorem Engine.isDiscreet_bounded (bound : Nat) : (bounded bound).IsDiscreet := by
  induction bound with
  | zero => exact ⟨fun _ _ _ _ => trivial, fun _ _ _ _ _ => trivial, fun _ _ _ _ => trivial⟩
  | succ bound ih =>
    constructor
    · exact fun c => Exec.discreet_setUp ih c
    · intro m arguments
      have hb : Exec.Built (bounded bound) .every .host []
          (Exec.callNative (bounded bound) m arguments) := .callNative m arguments
      exact hb.discreet ih
    · exact fun limit => Exec.discreet_run ih limit

namespace Exec

variable {env : Machine → Prop} {t : Thread} {o : ObjectId}

section Report

def headline (name : String) (c : ClassName) (message : Option String) : String :=
  let named := "Exception in thread \"" ++ name ++ "\" " ++ c.toSource
  match message with
  | some text => named ++ ": " ++ text
  | none => named

def finish (headline : String) (lines : List String) (o : ObjectId) : Exec Unit := do
  writeReport headline lines
  modify fun t => { t with uncaught := some o }

def conclude (headline : String) (o : ObjectId) : Exec Unit := do
  let unwound := (← get).unwound
  modify fun t => { t with unwound := [] }
  finish headline unwound.reverse o

theorem uncaught_leadsTo {c : Class} {message : Option String} (e : Engine)
    (hc : ∀ m, env m → (m.heap.get? o).map (·.klass) = some c)
    (hm : ∀ m, env m → m.throwableMessage? o = message) :
    (uncaught e o).LeadsTo env t (do
      runHandler e o
      conclude (headline t.name c.name message) o) t := by
  refine (yields_classOf hc).leadsTo ((yields_read hm).leadsTo ((yields_get t).leadsTo ?_))
  exact .sign (leadsTo_refl _ _)

theorem conclude_leadsTo (headline : String) :
    (conclude headline o).LeadsTo env t (finish headline t.unwound.reverse o)
      { t with unwound := [] } :=
  (yields_get t).leadsTo ((yields_modify _ t).leadsTo (leadsTo_refl _ _))

theorem yields_runHandler {e : Engine} (h : ∀ m, env m → m.settings.uncaughtHandler = none) :
    (runHandler e o).Yields env t (.ok ()) t :=
  (yields_read h).bind (yields_pure ())

end Report

end Exec

def Thread.leaving (above : Frames) (t : Thread) : Thread :=
  { t with frames := [], unwound := (above.map Frame.describe).reverse ++ t.unwound }

def Thread.linesOver (above : Frames) (t : Thread) : List String :=
  t.unwound.reverse ++ above.map Frame.describe

theorem Thread.reverse_unwound_leaving (above : Frames) (t : Thread) :
    (t.leaving above).unwound.reverse = t.linesOver above := by
  rw [leaving, linesOver, List.reverse_append, List.reverse_reverse]

theorem Thread.linesOver_eq_iff {above : Frames} {t : Thread} :
    t.linesOver above = above.map Frame.describe ↔ t.unwound = [] := by
  rw [linesOver, List.append_left_eq_self, List.reverse_eq_nil_iff]

namespace Exec

structure Reports (bound : Nat) (o : ObjectId) (above : Frames) (t : Thread) : Prop where
  unwound : ∀ {n : Nat} {c : Class} {loaded : ClassName → Class} {message : Option String},
    bound = n + above.length → (∀ f ∈ above, f.handler? loaded c = none) →
    (unwind (.bounded bound) o 0).LeadsTo
      (fun m => m.Steady t.id o c loaded (above.flatMap (Frame.tried loaded c)) ∧
        m.throwableMessage? o = message) t
      (do
        orAbort (do
          runHandler (.bounded (n + 1)) o
          conclude (headline t.name c.name message) o) 0
        (Engine.bounded (n + 1)).run 0)
      (t.leaving above)
  unhooked : ∀ (e : Engine) (headline : String) (env : Machine → Prop),
    (∀ m, env m → m.settings.uncaughtHandler = none) →
    (do
      runHandler e o
      conclude headline o : Exec Unit).LeadsTo env (t.leaving above)
      (finish headline (t.linesOver above) o) { t.leaving above with unwound := [] }
  onlyAbove : t.linesOver above = above.map Frame.describe ↔ t.unwound = []
  hooked : ∀ (n : Nat) (s : Scene),
    (runHandler (.bounded n) o).Meets (.listening t.id) (t.leaving above) (fun _ t1 s1 =>
      s1.traps t.id = s.traps t.id → ∀ (headline : String) (env : Machine → Prop),
        (conclude headline o).LeadsTo env t1 (finish headline (t.linesOver above) o)
          { t1 with unwound := [] }) s

theorem reports {bound : Nat} {above : Frames} {t : Thread} (hne : above ≠ [])
    (hb : ∀ f ∈ above, f.isBlank = false) (hf : t.frames = above.modifyHead Frame.cleared)
    (o : ObjectId) : Reports bound o above t where
  unwound := by
    intro n c loaded message hn hh
    have hu : Unwinds bound o above [] t := unwinds hne hb (by rw [List.append_nil, hf])
    refine ((hu.reported hn rfl hh).restrict fun m hm => hm.1).trans (LeadsTo.bind ?_ _)
    exact orAbort_leadsTo (uncaught_leadsTo (t := t.leaving above) _ (fun m hm => hm.1.class_eq)
      fun m hm => hm.2) 0
  unhooked e headline env h := by
    rw [← t.reverse_unwound_leaving above]
    exact (yields_runHandler h).leadsTo (conclude_leadsTo headline)
  onlyAbove := Thread.linesOver_eq_iff
  hooked n s := by
    have hb : Built (.bounded n) .every .host [] (runHandler (.bounded n) o) := .runHandler o
    refine (hb.discreet (Engine.isDiscreet_bounded n) t.id (t.leaving above) s).mono
      fun r t1 s1 h heq headline env => ?_
    rw [← t.reverse_unwound_leaving above, ← h.unwound heq]
    exact conclude_leadsTo headline

end Exec

namespace Engine

open Exec

theorem reports_exact (bound : Nat) (t : Thread) (s : Scene) (top : Frame) (above : Frames)
    (hf : t.frames = top :: above) (ht : top.tossed = none)
    (hb : ∀ f ∈ top :: above, f.isBlank = false) :
    (step (bounded bound)).Meets (.listening t.id) t (fun r t1 s1 =>
      Untouched t.id t s t1 s1 ∧
      ∀ trap, r = .error trap → trap.isCatchable = true → ∃ stack,
        t1.frames = top.trapped stack :: above ∧ ∀ s2,
          (handleTrap.thrown (bounded bound) trap).Meets (.listening t.id) t1 (fun r t2 s3 =>
            Untouched t.id t1 s2 t2 s3 ∧
            ∀ o, r = .ok o →
              t2.id = t.id ∧ t2.frames = t1.frames ∧
              Reports bound o (top.trapped stack :: above) t2) s2) s ∧
    (∀ limit, ((bounded bound).run limit).Meets (.listening t.id) t
      (fun _ t' s' => Untouched t.id t s t' s') s) ∧
    ∀ i j s s', i ≠ j → (Contract.listening i).guarantee s s' →
      (Contract.listening j).rely s s' := by
  have he := balanced_bounded bound
  have hd := isDiscreet_bounded bound
  refine ⟨?_, fun limit => hd.run limit t.id t s, fun _ _ _ _ hij hg =>
    Contract.listening_compatible hij hg⟩
  refine ((discreet_step hd t.id t s).and_free (step_stepped he)).mono fun r t1 s1 h1 => ?_
  refine ⟨h1.1, fun trap hr hc => ?_⟩
  subst hr
  obtain ⟨stack, hf1⟩ := h1.2.trapped hf ht hc
  refine ⟨stack, hf1, fun s2 => ?_⟩
  have hk : Built (bounded bound) .every .host [] (handleTrap.thrown (bounded bound) trap) :=
    .thrown trap
  refine ((hk.discreet hd t.id t1 s2).and_free (hk.kin he t1 t.id s2)).mono fun r t2 s3 h2 => ?_
  refine ⟨h2.1, fun o _ => ⟨h2.2.id.trans h1.2.akin.id, h2.2.frames, ?_⟩⟩
  refine reports (List.cons_ne_nil _ _) (fun f hm => ?_) (h2.2.frames.trans (hf1.trans ?_)) o
  · rcases List.mem_cons.1 hm with rfl | hm
    · exact hb top List.mem_cons_self
    · exact hb f (List.mem_cons_of_mem _ hm)
  · change _ = { top.trapped stack with tossed := none } :: above
    rw [← ht]
    rfl

def callingFrame : Frame := runningFrame ⟨0, #[.nop, .returnVoid], [⟨1, 2, 0, none⟩], []⟩

theorem reports_exact_over_two_frames :
    let t := { Thread.start 1 "main" with frames := [throwingFrame, callingFrame] }
    let t1 := { t with frames := [throwingFrame.trapped [], callingFrame] }
    let line := headline "main" .throwable none
    (step (bounded 5)).Yields (fun _ => True) t (.error (.throw ⟨0⟩)) t1 ∧
      (unwind (bounded 5) ⟨0⟩ 0).LeadsTo
        (fun m => m.Steady 1 ⟨0⟩ throwableClass (fun _ => throwableClass) [] ∧
          m.throwableMessage? ⟨0⟩ = none) t1
        (do
          orAbort (do
            runHandler (.bounded 4) ⟨0⟩
            conclude line ⟨0⟩) 0
          (Engine.bounded 4).run 0)
        (t1.leaving [throwingFrame.trapped [], callingFrame]) ∧
      (do
        runHandler (bounded 4) ⟨0⟩
        conclude line ⟨0⟩ : Exec Unit).LeadsTo (fun m => m.settings.uncaughtHandler = none)
        (t1.leaving [throwingFrame.trapped [], callingFrame])
        (finish line ([throwingFrame, callingFrame].map Frame.describe) ⟨0⟩)
        { t with frames := [], unwound := [] } ∧
      (steadyMachine.Steady 1 ⟨0⟩ throwableClass (fun _ => throwableClass) [] ∧
        steadyMachine.throwableMessage? ⟨0⟩ = none ∧
        steadyMachine.settings.uncaughtHandler = none) := by
  intro t t1 line
  have hb : ∀ f ∈ [throwingFrame, callingFrame], f.isBlank = false := by
    simp [throwingFrame, callingFrame, runningFrame, Frame.isBlank]
  have hstep : (step (bounded 5)).Yields (fun _ => True) t (.error (.throw ⟨0⟩)) t1 :=
    yields_throw (bounded 5) rfl rfl rfl rfl rfl
  have hexact := (reports_exact 5 t ⟨steadyMachine, []⟩ throwingFrame [callingFrame] rfl rfl hb).1
  obtain ⟨s1, -, h1⟩ := Prog.Leads.exists_of_meets hstep (fun _ => rfl) hexact
  obtain ⟨stack, hf, hthrown⟩ := h1 _ rfl rfl
  obtain ⟨-, h2⟩ := hthrown s1
  obtain ⟨-, -, hreports⟩ := h2 ⟨0⟩ rfl
  cases hf
  refine ⟨hstep, hreports.unwound (n := 3) rfl fun f hf => ?_,
    hreports.unhooked (bounded 4) line _ fun _ h => h,
    steady_steadyMachine fun _ hn => absurd hn List.not_mem_nil, rfl, rfl⟩
  rcases List.mem_cons.1 hf with rfl | hf
  · rfl
  · obtain rfl := List.mem_singleton.1 hf
    rfl

end Engine

end BytecodeMachine
