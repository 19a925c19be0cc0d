import BytecodeMachine.Proofs.Sessions

namespace BytecodeMachine

variable {α β : Type}

namespace Exec

-- What everything that a thread does consists of. A class object is entered and a string is kept by the
-- same thread that has made it, and an error is recorded with the thread itself. A class object is entered
-- for a class that has been found, and P is whatever is so of the names of all classes that are found.
inductive Woven (P : ClassName → Prop) (i : Nat) : {α : Type} → Exec α → Prop where
  | pure {α : Type} (a : α) : Woven P i (Pure.pure a)
  | throw {α : Type} (trap : Trap) : Woven P i (MonadExcept.throw trap : Exec α)
  | bind {α β : Type} {x : Exec α} {f : α → Exec β} (hx : Woven P i x) (hf : ∀ a, Woven P i (f a)) :
      Woven P i (x >>= f)
  | get {α : Type} {f : Thread → Exec α} (hf : ∀ t : Thread, t.id = i → Woven P i (f t)) :
      Woven P i (MonadState.get >>= f)
  | modify {f : Thread → Thread} (h : ∀ t, (f t).id = t.id) : Woven P i (modify f : Exec PUnit)
  | set {t : Thread} (h : t.id = i) : Woven P i (MonadState.set t : Exec PUnit)
  | attempt {α : Type} {x : Exec α} (hx : Woven P i x) : Woven P i (Exec.attempt x)
  | pass (x : Sign) : Woven P i (Exec.pass x)
  | await (b : Blocker) : Woven P i (Exec.await b)
  | lift {α : Type} {p : Prog α} (h : p.IsMild) : Woven P i (Exec.lift p)
  | act {α : Type} {f : Machine → α × Machine} (h : ∀ m : Machine, m.Leaves (f m).2) :
      Woven P i (Exec.act f)
  | resolve {α β : Type} {res : List Library → Resolving α} {entry : α → ClassName × Class}
      {f : α → Exec β} (h : Resolving.Finds res entry)
      (hf : ∀ a, (entry a).2.name = (entry a).1 → P (entry a).1 → Woven P i (f a)) :
      Woven P i (Exec.resolve res >>= f)
  | enroll {c : Class} (n : ClassName) (hc : c.name = .klass) (hn : P n) :
      Woven P i (newObject c >>= fun o => Exec.act (·.enroll n o))
  | keep {α : Type} (c : Class) (text : String) {x : ObjectId → Exec α} (hx : ∀ o, Woven P i (x o)) :
      Woven P i (newObject c >>= fun o => x o >>= fun _ => Exec.act (·.keep text o))
  | report (index code : Int32) : Woven P i (Exec.act (·.setError i index code))

end Exec

structure Engine.Woven (e : Engine) : Prop where
  setUp : ∀ P i c, (e.setUp c).Woven P i
  native : ∀ P i m arguments, (e.native m arguments).Woven P i
  run : ∀ P i limit, (e.run limit).Woven P i

namespace Exec

variable {P : ClassName → Prop} {e : Engine} {i : Nat}

namespace Woven

theorem update {f : Machine → Machine} (h : ∀ m : Machine, m.Leaves (f m)) :
    Woven P i (Exec.update f) :=
  .act h

theorem read (f : Machine → α) : Woven P i (Exec.read f) := .act Machine.Leaves.refl

theorem note (x : Event) : Woven P i (Exec.note x) := .pass _

theorem ofTrap (r : Except Trap α) : Woven P i (Exec.ofTrap r) := by
  cases r with
  | ok a => exact .pure a
  | error trap => exact .throw trap

theorem attempt_bind {x : Exec α} {f : Except Trap α → Exec β} (hx : Woven P i x)
    (hf : ∀ r, Woven P i (f r)) : Woven P i (Exec.attempt x >>= f) :=
  .bind (.attempt hx) hf

theorem ending {x : Exec α} {after : Exec Unit} (hx : Woven P i x) (h : Woven P i after) :
    Woven P i (x.ending after) :=
  .attempt_bind hx fun r => .bind h fun _ => .ofTrap r

theorem locked {x : Exec α} (hx : Woven P i x) : Woven P i (Exec.locked x) :=
  .get fun _ _ => .bind (.await _) fun _ => .ending hx (.update Machine.leaves_unlock)

theorem inFrame (action : FrameM α) : Woven P i (Exec.inFrame action) := by
  refine .get fun _ _ => ?_
  split
  · exact .throw _
  · exact .bind (.modify fun _ => rfl) fun _ => .ofTrap _

theorem setError (index code : Int32) : Woven P i (Exec.setError index code) :=
  .get fun _ ht => ht ▸ .report index code

end Woven

section Calls

theorem woven_enterFrame (c : Class) (m : Method) (arguments : List Value) :
    (enterFrame c m arguments).Woven P i := by
  have next : (do
      let f ← ofExcept (Frame.enter c m arguments)
      modify (·.push f) : Exec Unit).Woven P i := by
    cases Frame.enter c m arguments with
    | ok f => exact .bind (.pure f) fun _ => .modify fun _ => rfl
    | error fault => exact .bind (.throw _) fun _ => .modify fun _ => rfl
  refine .bind (.read _) fun b => ?_
  dsimp only
  split
  · exact .get fun _ _ => .bind (.note _) fun _ => next
  · exact next

theorem woven_enterMethod (he : e.Woven) (c : Class) (m : Method) (arguments : List Value) :
    (enterMethod e c m arguments).Woven P i := by
  unfold enterMethod
  split
  · refine .bind (he.native P i m arguments) fun v => ?_
    cases v with
    | none => exact .pure ()
    | some v => exact .inFrame _
  · split
    · exact .throw _
    · exact woven_enterFrame c m arguments

theorem woven_takeResult : takeResult.Woven P i := by
  refine .get fun t _ => ?_
  split
  · exact .throw _
  · refine .bind (.modify fun _ => rfl) fun _ => ?_
    split
    · exact .throw _
    · exact .pure _

theorem woven_invokeMethod (he : e.Woven) (c : Class) (m : Method) (arguments : List Value) :
    (invokeMethod e c m arguments).Woven P i := by
  refine .bind (.note _) fun _ => .get fun t _ => .bind (.modify fun _ => rfl) fun _ => ?_
  have body : (do
      enterMethod e c m arguments
      e.run (t.depth + 1) : Exec Unit).Woven P i :=
    .bind (woven_enterMethod he c m arguments) fun _ => he.run P i (t.depth + 1)
  refine .attempt_bind body fun r => ?_
  cases r with
  | ok _ => exact woven_takeResult
  | error trap => exact .bind (.modify fun _ => rfl) fun _ => .throw trap

theorem woven_deliver (v : Option Value) (rest : List Frame) :
    (match v, rest with
      | some v, _ :: _ => push v
      | _, _ => Pure.pure () : Exec Unit).Woven P i := by
  split
  · exact .inFrame _
  · exact .pure ()

theorem woven_returnFrom (hasValue : Bool) : (returnFrom hasValue).Woven P i := by
  refine .get fun t _ => ?_
  rcases t.frames with _ | ⟨f, rest⟩
  · exact .throw _
  · refine .bind (.modify fun _ => rfl) fun _ => ?_
    dsimp only
    generalize (if hasValue = true then f.stack.head? else none) = v
    split
    · exact .throw _
    · split
      · split
        · exact .throw _
        · exact woven_deliver v rest
      · exact woven_deliver v rest

theorem Built.woven_of_known (he : e.Woven) {z : Realm} {r : Reach} {known : Known} {x : Exec α}
    (h : Built e z r known x) (hk : ∀ c ∈ known, c.2.name = c.1 ∧ P c.1) : x.Woven P i := by
  induction h with
  | pure a => exact .pure a
  | throw trap => exact .throw trap
  | bind _ _ ihx ihf => exact .bind (ihx hk) fun a => ihf a hk
  | get =>
    rw [← bind_pure MonadState.get]
    exact .get fun t _ => .pure t
  | modify h => exact .modify fun t => (h t).id
  | lift h => exact .lift h
  | enroll n hc hn => exact .enroll n (hk _ hc).1 (hk _ hn).2
  | keep c text _ ih => exact .keep c text fun o => ih o hk
  | report index code => exact .setError index code
  | looking h => exact .act (Machine.leaves_resolve h)
  | resolving h _ ihf => exact .resolve h fun a ha hp => ihf a (List.forall_mem_cons.2 ⟨⟨ha, hp⟩, hk⟩)
  | locked _ ih => exact .locked (ih hk)
  | setUp => exact he.setUp P i _
  | invoke arguments => exact woven_invokeMethod he _ _ arguments
  | recover _ ok caught passed ihx ihok ihcaught =>
    refine .attempt_bind (ihx hk) fun r => ?_
    cases r with
    | ok a => exact ihok a hk
    | error trap =>
      cases ht : trap.isCatchable with
      | true => exact ihcaught trap ht hk
      | false =>
        obtain ⟨g, hg, hf⟩ := passed trap ht
        rw [hf]
        exact .bind (.modify fun t => (hg t).id) fun _ => .throw trap
  | frame action => exact .inFrame action
  | enter arguments => exact woven_enterMethod he _ _ arguments
  | leave hasValue => exact woven_returnFrom hasValue

theorem Built.woven (he : e.Woven) {z : Realm} {r : Reach} {x : Exec α} (h : Built e z r [] x) :
    x.Woven P i :=
  h.woven_of_known he (List.forall_mem_nil _)

theorem Storing.woven (he : e.Woven) {r : Reach} {x : Exec α} (h : Storing e r x) : x.Woven P i := by
  induction h with
  | built h => exact h.woven he
  | bind _ _ ihx ihf => exact .bind ihx ihf
  | store f v => exact .locked (.update (Machine.leaves_setStatic f v))

theorem Reporting.woven (he : e.Woven) {x : Exec α} (h : Reporting e x) : x.Woven P i := by
  induction h with
  | built h => exact h.woven he
  | bind _ _ ihx ihf => exact .bind ihx ihf
  | forget => exact .modify fun _ => rfl
  | blame o => exact .modify fun _ => rfl

end Calls

section SetUp

theorem woven_setUpAll (he : e.Woven) (cs : List Class) : (setUpAll e cs).Woven P i := by
  induction cs with
  | nil => exact .pure ()
  | cons c rest ih => exact .bind (he.setUp P i c) fun _ => ih

theorem woven_runSetup (he : e.Woven) (c : Class) : (runSetup e c).Woven P i := by
  refine .bind ((Storing.seed c.fields).woven he) fun _ => .bind (woven_setUpAll he _) fun _ => ?_
  split
  · exact .pure ()
  · exact .bind (.pass _) fun _ => .bind (woven_invokeMethod he c _ []) fun _ => .pure ()

theorem woven_setUpOnce (he : e.Woven) (c : Class) : (setUpOnce e c).Woven P i := by
  refine .bind (.note _) fun _ => .bind (.update (Machine.leaves_setInitState _ _)) fun _ => ?_
  refine .attempt_bind (woven_runSetup he c) fun r => ?_
  have finish : (do
      Exec.update (·.setInitState c.name .initialized)
      Exec.note (.initialized c.name)
      Exec.ofTrap r : Exec Unit).Woven P i :=
    .bind (.update (Machine.leaves_setInitState _ _)) fun _ => .bind (.note _) fun _ => .ofTrap r
  dsimp only
  split
  · exact .bind (.pass _) fun _ => finish
  · exact finish

theorem woven_setUp (he : e.Woven) (c : Class) : (setUp e c).Woven P i := by
  refine .ending (.bind (.read _) fun state => ?_) (.pass _)
  split
  · refine .locked (.bind (.read _) fun state => ?_)
    split
    · exact woven_setUpOnce he c
    · exact .pure ()
  · exact .pure ()

end SetUp

section Step

theorem woven_fetch (he : e.Woven) : fetch.Woven P i := by
  refine .get fun t _ => ?_
  split
  · exact .throw _
  · split
    · exact .bind (.modify fun _ => rfl) fun _ => .throw _
    · split
      · exact .throw _
      · split
        · exact .throw _
        · rename_i a _ _ _ _
          have hw (steps : Nat) : Built e .every .host [] (fetch.warn a.method steps) := .warn _ _
          exact .bind (.modify fun _ => rfl) fun _ => .bind ((hw _).woven he) fun _ => .pure _

theorem woven_step (he : e.Woven) : (step e).Woven P i :=
  .bind (woven_fetch he) fun ⟨_, _, x⟩ => .bind (.note _) fun _ => (Storing.execute x).woven he

theorem woven_exitAllFrames : exitAllFrames.Woven P i :=
  .get fun _ ht => .bind (.pass _) fun _ => .set ht

theorem woven_reportFatal (he : e.Woven) (fault : Fault) : (reportFatal fault).Woven P i := by
  refine .get fun t ht => ?_
  split
  · exact .pure ()
  · refine .bind (.note _) fun _ => .bind (.set ht) fun _ => ?_
    have write (headline : String) (frames : List String) :
        Built e .every .host [] (writeReport headline frames) := .writeReport headline frames
    refine .bind ((write _ _).woven he) fun _ => .bind woven_exitAllFrames fun _ => ?_
    exact .lift (Prog.isMild_exit 1)

theorem woven_abort (he : e.Woven) (trap : Trap) (limit : Nat) : (abort trap limit).Woven P i := by
  have fatal (fault : Fault) : (abort.abortFatal limit fault).Woven P i := by
    refine .bind (.modify fun _ => rfl) fun _ => ?_
    dsimp only
    split
    · exact .bind (woven_reportFatal he fault) fun _ => .throw _
    · exact .throw _
  cases trap with
  | throw o => exact .throw _
  | raise cause => exact fatal _
  | fatal fault => exact fatal fault
  | exit =>
    unfold abort
    dsimp only
    split
    · exact .bind woven_exitAllFrames fun _ => .throw _
    · exact .throw _

theorem woven_dispatch (he : e.Woven) (o : ObjectId) : (dispatch e o).Woven P i := by
  refine .get fun t _ => ?_
  split
  · exact .throw _
  · split
    · exact .modify fun _ => rfl
    · have hc : Built e .every .host [] (classOf o) := .classOf o
      refine .bind (hc.woven he) fun c => ?_
      have hh (handlers : List Handler) : Built e .every .host [] (findHandler c handlers) :=
        .findHandler c handlers
      refine .bind ((hh _).woven he) fun found => ?_
      cases found with
      | some target => exact .bind (.pass _) fun _ => .modify fun _ => rfl
      | none =>
        refine .bind (.modify fun _ => rfl) fun _ => ?_
        split
        · exact .bind (.modify fun _ => rfl) fun _ => (Reporting.uncaught o).woven he
        · exact .modify fun _ => rfl

theorem woven_handleTrap (he : e.Woven) (trap : Trap) (limit : Nat) :
    (handleTrap e trap limit).Woven P i := by
  have hb : Built e .every .host [] (handleTrap.thrown e trap) := .thrown trap
  refine .attempt_bind (hb.woven he) fun r => ?_
  cases r with
  | error other => exact woven_abort he other limit
  | ok o =>
    refine .attempt_bind (woven_dispatch he o) fun r => ?_
    cases r with
    | error other => exact woven_abort he other limit
    | ok _ => exact .pure ()

theorem woven_run (he : e.Woven) (limit : Nat) : (run e limit).Woven P i := by
  refine .get fun t _ => ?_
  split
  · exact .pure ()
  · refine .bind (.lift Prog.isMild_turn) fun _ => ?_
    refine .bind (.get fun t _ => .read _) fun stop => ?_
    split
    · exact woven_abort he .exit limit
    · refine .attempt_bind (woven_step he) fun r => ?_
      cases r with
      | ok _ => exact he.run P i limit
      | error trap =>
        exact .bind (.pass _) fun _ => .bind (woven_handleTrap he trap limit) fun _ => he.run P i limit

end Step

end Exec

theorem Engine.woven_bounded (bound : Nat) : (bounded bound).Woven := by
  induction bound with
  | zero =>
    exact ⟨fun _ _ _ => .lift trivial, fun _ _ _ _ => .lift trivial, fun _ _ _ => .lift trivial⟩
  | succ bound ih =>
    constructor
    · exact fun P i c => Exec.woven_setUp ih c
    · intro P i m arguments
      have hb : Exec.Built (bounded bound) .every .host []
          (Exec.callNative (bounded bound) m arguments) := .callNative m arguments
      exact hb.woven ih
    · exact fun P i limit => Exec.woven_run ih limit

namespace Exec

variable {P : ClassName → Prop} {e : Engine} {i : Nat} (he : e.Woven)

include he

theorem woven_ended (outcome : Except Trap Unit) : (ended outcome).Woven P i := by
  have fatal (fault : Fault) : (do
      reportFatal fault
      Pure.pure (.error (.fatal fault)) : Exec (Except RunError Unit)).Woven P i :=
    .bind (woven_reportFatal he fault) fun _ => .pure _
  have other (trap : Trap) : (do
      let shown ← Exec.read fun m => m.shownTrap trap
      reportFatal (.couldNotRaiseTrap shown)
      Pure.pure (.error (.fatal (.couldNotRaiseTrap shown))) :
        Exec (Except RunError Unit)).Woven P i :=
    .bind (.read _) fun shown => fatal _
  rcases outcome with trap | ⟨⟩
  · cases trap with
    | fatal fault => exact fatal fault
    | throw o => exact other _
    | raise cause => exact other _
    | exit =>
      refine .bind woven_exitAllFrames fun _ => .bind (.read _) fun status => ?_
      cases status with
      | none => exact .pure _
      | some code => exact .pure _
  · refine .get fun t _ => ?_
    split
    · exact .pure _
    · rename_i o _
      have hc : Built e .every .host [] (classOf o) := .classOf o
      exact .bind (hc.woven he) fun c => .pure _

theorem woven_runEntry (p : EntryPoint) (arguments : List String) :
    (runEntry e p arguments).Woven P i := by
  have enter : Built e .every .call [] (enterEntry e p arguments) := .enterEntry p arguments
  refine .attempt_bind (.bind (enter.woven he) fun _ => he.run P i 0) fun r => ?_
  exact .attempt_bind ((Reporting.settle r).woven he) fun r => woven_ended he r

theorem woven_answer (d : Demand) : (answer e d).Woven P i := by
  cases d with
  | entry p arguments => exact .bind (woven_runEntry he p arguments) fun _ => .pure ()
  | setUp n => exact (Built.answer_setUp n).woven he
  | call ref arguments => exact (Built.answer_call ref arguments).woven he

theorem woven_serve (demands : List Demand) : (serve e demands).Woven P i := by
  induction demands with
  | nil => exact .pure ()
  | cons d rest ih => exact .attempt_bind (woven_answer he d) fun _ => ih

end Exec

end BytecodeMachine
