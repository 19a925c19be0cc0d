import BytecodeMachine.Proofs.Identities.Hands
import BytecodeMachine.Proofs.Setup.Constructors

namespace BytecodeMachine

variable {α β : Type}

open Frames

def Contract.quiet (i : Nat) : Contract where
  thread := i
  rely _ s' := s'.machine.Orderly
  guarantee s s' := ∀ j, s'.machine.errors? j = s.machine.errors? j

def CoreLibrary.Defines (c : ClassName × Class) : Prop :=
  ∃ rest table, ClassTable.Closed (library :: rest) table ∧ table.get? c.1 = some c.2

theorem Prog.IsMild.quiet {p : Prog α} (h : p.IsMild) {i : Nat} {s : Scene} :
    p.Meets (.quiet i) (fun _ _ => True) s := by
  induction p generalizing s with
  | done a => trivial
  | step f next ih => exact fun s' _ => ⟨(h.1 s'.machine).errors, ih _ (h.2 _)⟩
  | sign x next ih => exact fun s' _ => ⟨(Machine.leaves_pass x s'.machine).errors, ih h.2⟩
  | wait b next ih =>
    exact fun s' w m _ ha => ⟨(Blocker.leaves_attempt ha).errors, ih w (h.2 w)⟩
  | starved => trivial

namespace Exec

variable {e : Engine} {i : Nat} {t : Thread} {s : Scene}

def Quiet (x : Exec α) : Prop :=
  ∀ (i : Nat) (t : Thread) (s : Scene), x.Meets (.quiet i) t (fun _ _ _ => True) s

theorem quiet_act {f : Machine → α × Machine} {Q : Post α}
    (h : ∀ m : Machine, m.Orderly → ∀ j, (f m).2.errors? j = m.errors? j)
    (hq : ∀ s' : Scene, s'.machine.Orderly → Q (.ok (f s'.machine).1) t (s'.become (f s'.machine).2)) :
    (act f).Meets (.quiet i) t Q s :=
  meets_lift.2 fun s' hs => ⟨h s'.machine hs, hq s' hs⟩

theorem quiet_resolve {res : List Library → Resolving α} {P : α → ClassTable → Prop}
    (hf : ∀ libraries table, (res libraries).Keeps libraries P table) {Q : Post α}
    (ok : ∀ a s', s'.machine.Orderly → P a s'.machine.classes → Q (.ok a) t s')
    (error : ∀ trap s', Q (.error trap) t s') : (resolve res).Meets (.quiet i) t Q s := by
  refine meets_resolve.2 fun s' hs => ?_
  have hl := Machine.leaves_resolve hf s'.machine
  refine ⟨hl.errors, ?_⟩
  cases hres : (s'.machine.resolve res).1 with
  | error err => exact error _ _
  | ok a => exact ok a _ (hl.orderly hs) (Machine.of_resolve hf hres)

namespace Quiet

theorem pure (a : α) : Quiet (Pure.pure a : Exec α) := fun _ _ _ => trivial

theorem throw (trap : Trap) : Quiet (MonadExcept.throw trap : Exec α) := fun _ _ _ => trivial

theorem get : Quiet (MonadState.get : Exec Thread) := fun _ _ _ => trivial

theorem change (f : Thread → Thread) : Quiet (modify f : Exec PUnit) := fun _ _ _ => trivial

theorem bind {x : Exec α} {f : α → Exec β} (hx : Quiet x) (hf : ∀ a, Quiet (f a)) :
    Quiet (x >>= f) := by
  refine fun i t s => meets_bind.2 ((hx i t s).mono fun r t' s' _ => ?_)
  cases r with
  | error trap => trivial
  | ok a => exact hf a i t' s'

theorem attempt_bind {x : Exec α} {f : Except Trap α → Exec β} (hx : Quiet x)
    (hf : ∀ r, Quiet (f r)) : Quiet (attempt x >>= f) :=
  fun i t s => meets_bind.2 (meets_attempt.2 ((hx i t s).mono fun r t' s' _ => hf r i t' s'))

theorem ofTrap (r : Except Trap α) : Quiet (Exec.ofTrap r) := by
  cases r with
  | ok a => exact pure a
  | error trap => exact throw trap

theorem lift {p : Prog α} (h : p.IsMild) : Quiet (Exec.lift p) :=
  fun _ _ _ => meets_lift.2 h.quiet

theorem act {f : Machine → α × Machine}
    (h : ∀ m : Machine, m.Orderly → ∀ j, (f m).2.errors? j = m.errors? j) : Quiet (Exec.act f) :=
  fun _ _ _ => quiet_act h fun _ _ => trivial

theorem pass (x : Sign) : Quiet (Exec.pass x) :=
  fun _ _ _ => meets_lift.2 fun s' _ => ⟨(Machine.leaves_pass x s'.machine).errors, trivial⟩

theorem update {f : Machine → Machine} (h : ∀ m : Machine, m.Leaves (f m)) :
    Quiet (Exec.update f) :=
  act fun m _ => (h m).errors

theorem read (f : Machine → α) : Quiet (Exec.read f) := act fun _ _ _ => rfl

theorem note (x : Event) : Quiet (Exec.note x) := pass _

theorem ending {x : Exec α} {after : Exec Unit} (hx : Quiet x) (h : Quiet after) :
    Quiet (x.ending after) :=
  attempt_bind hx fun r => bind h fun _ => ofTrap r

theorem locked {x : Exec α} (hx : Quiet x) : Quiet (Exec.locked x) := by
  refine bind get fun t => bind ?_ fun _ => ending hx (update Machine.leaves_unlock)
  exact fun _ _ _ => meets_lift.2 fun s' w m _ ha => ⟨(Blocker.leaves_attempt ha).errors, trivial⟩

theorem inFrame (action : FrameM α) : Quiet (Exec.inFrame action) := by
  refine bind get fun t => ?_
  split
  · exact throw _
  · exact bind (change _) fun _ => ofTrap _

theorem resolve_bind {res : List Library → Resolving α} {entry : α → ClassName × Class}
    {f : α → Exec β} (h : Resolving.Finds res entry)
    (hf : ∀ a, CoreLibrary.Defines (entry a) → Quiet (f a)) : Quiet (resolve res >>= f) := by
  refine fun i t s => meets_bind.2 (quiet_resolve h (fun a s' hs' hfound => ?_) fun _ _ => trivial)
  obtain ⟨rest, hl⟩ := hs'.libraries
  exact hf a ⟨rest, s'.machine.classes, hl ▸ hs'.closed, hfound⟩ i t s'

end Quiet

end Exec

namespace Engine

structure Quiet (e : Engine) : Prop where
  setUp : ∀ n c, CoreLibrary.Defines (n, c) → CoreLibrary.Has n → (e.setUp c).Quiet
  construct : ∀ (limit i : Nat) (t : Thread) (s : Scene), Cores (limit + 1) t.frames →
    (e.run (limit + 1)).Meets (.quiet i) t (fun _ _ _ => True) s

end Engine

namespace Exec

variable {e : Engine} {i limit : Nat} {t : Thread} {s : Scene} {c : Class} {m : Method}

theorem enterMethod_quiet (hm : CoreLibrary.IsConstructor m) (c : Class) (arguments : List Value)
    (hc : Cores limit t.frames) :
    (enterMethod e c m arguments).Meets (.quiet i) t
      (fun r t' _ => ∀ u, r = .ok u → Cores limit t'.frames) s := by
  have next {s1 : Scene} : (do
      let f ← ofExcept (Frame.enter c m arguments)
      modify (·.push f) : Exec Unit).Meets (.quiet i) t
        (fun r t' _ => ∀ u, r = .ok u → Cores limit t'.frames) s1 := by
    cases hf : Frame.enter c m arguments with
    | error fault => exact nofun
    | ok f => exact fun _ _ => .core ⟨⟨c, m⟩, Frame.activation_of_enter hf, hm⟩ hc
  unfold enterMethod
  rw [if_neg (by rw [hm.2.1]; exact Bool.false_ne_true)]
  split
  · exact nofun
  · refine meets_bind.2 (quiet_act (fun _ _ _ => rfl) fun s1 _ => ?_)
    dsimp only [after_ok]
    split
    · rw [meets_bind, meets_get, after_ok, meets_bind]
      exact meets_lift.2 fun s2 _ => ⟨(Machine.leaves_pass _ s2.machine).errors, next⟩
    · exact next

theorem quiet_takeResult : Quiet takeResult := by
  refine .bind .get fun t => ?_
  split
  · exact .throw _
  · refine .bind (.change _) fun _ => ?_
    split
    · exact .throw _
    · exact .pure _

theorem quiet_invokeMethod (he : e.Quiet) (hm : CoreLibrary.IsConstructor m) (c : Class)
    (arguments : List Value) : Quiet (invokeMethod e c m arguments) := by
  refine .bind (.note _) fun _ i t s => ?_
  rw [meets_bind, meets_get, after_ok, meets_bind, meets_modify, after_ok]
  have body : (do
      enterMethod e c m arguments
      e.run (t.depth + 1) : Exec Unit).Meets (.quiet i) (t.push .blank) (fun _ _ _ => True) s := by
    have hc : Cores (t.depth + 1) (t.push .blank).frames := .base rfl
    refine meets_bind.2 ((enterMethod_quiet hm c arguments hc).mono fun r t1 s1 h1 => ?_)
    cases r with
    | error trap => trivial
    | ok u => exact he.construct t.depth i t1 s1 (h1 u rfl)
  refine meets_bind.2 (meets_attempt.2 (body.mono fun r t1 s1 _ => ?_))
  cases r with
  | ok _ => exact quiet_takeResult i t1 s1
  | error trap => exact (Quiet.bind (.change _) fun _ => .throw trap) i t1 s1

theorem quiet_deliver (v : Option Value) (rest : Frames) :
    Quiet (match v, rest with
      | some v, _ :: _ => push v
      | _, _ => Pure.pure () : Exec Unit) := by
  split
  · exact .inFrame _
  · exact .pure ()

theorem quiet_returnFrom (hasValue : Bool) : Quiet (returnFrom hasValue) := by
  refine .bind .get fun t => ?_
  rcases t.frames with _ | ⟨f, rest⟩
  · exact .throw _
  · refine .bind (.change _) fun _ => ?_
    dsimp only
    generalize (if hasValue = true then f.stack.head? else none) = v
    split
    · exact .throw _
    · split
      · split
        · exact .throw _
        · exact quiet_deliver v rest
      · exact quiet_deliver v rest

theorem Built.quiet_of_known (he : e.Quiet) {r : Reach} {known : Known} {x : Exec α}
    (h : Built e .core r known x) (hk : ∀ c ∈ known, CoreLibrary.Defines c) : Quiet x := by
  generalize hz : Realm.core = z at h
  induction h with
  | pure a => exact .pure a
  | throw trap => exact .throw trap
  | bind _ _ ihx ihf => exact .bind (ihx hk) fun a => ihf a hk
  | get => exact .get
  | modify => exact .change _
  | lift h => exact .lift h
  | enroll n hc => exact .bind (.act fun _ _ _ => rfl) fun o => .act fun _ _ _ => rfl
  | keep c text _ ih =>
    exact .bind (.act fun _ _ _ => rfl) fun o => .bind (ih o hk) fun _ => .act fun _ _ _ => rfl
  | report index code hz' => cases hz.trans hz'
  | looking h => exact .act fun m _ => (Machine.leaves_resolve h m).errors
  | resolving h _ ihf => exact .resolve_bind h fun a ha => ihf a (List.forall_mem_cons.2 ⟨ha, hk⟩)
  | locked _ ih => exact .locked (ih hk)
  | setUp hc hn => exact he.setUp _ _ (hk _ hc) (hn hz.symm)
  | @invoke _ _ c m arguments ho hcalls =>
    obtain ⟨n, hc, hn, hm, hname⟩ := hcalls hz.symm
    obtain ⟨rest, table, hclosed, hfound⟩ := hk _ hc
    exact quiet_invokeMethod he (CoreLibrary.isConstructor_of_mem hclosed hfound hn hm hname) c arguments
  | recover _ ok caught passed ihx ihok ihcaught =>
    refine .attempt_bind (ihx hk) fun r => ?_
    cases r with
    | ok a => exact ihok a hk
    | error trap =>
      cases ht : trap.isCatchable with
      | true => exact ihcaught trap ht hk
      | false =>
        obtain ⟨g, hg, hf⟩ := passed trap ht
        rw [hf]
        exact .bind (.change g) fun _ => .throw trap
  | frame action => exact .inFrame action
  | enter arguments ho hz' => cases hz.trans hz'
  | leave hasValue => exact quiet_returnFrom hasValue

theorem Built.quiet (he : e.Quiet) {r : Reach} {x : Exec α} (h : Built e .core r [] x) : Quiet x :=
  h.quiet_of_known he (List.forall_mem_nil _)

theorem Plain.quiet (he : e.Quiet) (hb : e.Balanced) {x : Exec α}
    {Q : Except Trap α → Thread → Prop} (h : Plain e t x Q) :
    x.Meets (.quiet i) t (fun r t' _ => Q r t') s := by
  induction h generalizing s with
  | pure a h => exact h
  | throw trap h => exact h
  | bind _ _ error ihx ihok =>
    refine meets_bind.2 (ihx.mono fun r t1 s1 h1 => ?_)
    cases r with
    | error trap => exact error trap t1 h1
    | ok a => exact ihok a t1 h1
  | get _ ih => exact meets_bind.2 ih
  | change hf h => exact h
  | attempt _ h ih => exact meets_attempt.2 (ih.mono fun r t' _ h' => h r t' h')
  | @built _ t _ _ _ hx h =>
    exact ((hx.quiet he i t s).and_free (hx.effect hb t i s)).mono fun r t' _ h' => h r t' h'.2
  | pass hx h => exact meets_lift.2 fun s' _ => ⟨(Machine.leaves_pass _ s'.machine).errors, h⟩
  | @constructor t ref _ hn hk ok error =>
    rw [resolveMethod, meets_bind, meets_get, after_ok]
    refine quiet_resolve (Resolving.keeps_resolveMethod ref t.context?) (fun a s' hs' h => ?_)
      fun trap _ => error trap
    obtain ⟨-, ⟨c, hc, hm⟩, -⟩ := h
    obtain ⟨rest, hl⟩ := hs'.libraries
    exact ok a (CoreLibrary.isConstructor_of_lookup (hl ▸ hs'.closed) hc hk hn hm)
  | @run t limit _ hc h => exact (he.construct limit i t s hc).mono fun r t' _ _ => h r t'

section SetUp

theorem quiet_seed (he : e.Quiet) (fields : List Field) : Quiet (seed e fields) := by
  induction fields with
  | nil => exact .pure ()
  | cons f rest ih =>
    have hv : Built e .core .host [] (firstValue e f) := .firstValue f
    have hset (v : Value) : Quiet (setStatic f v) := .locked (.update (Machine.leaves_setStatic f v))
    unfold seed
    split
    · exact .bind (hv.quiet he) fun v => .bind (hset v) fun _ => ih
    · exact ih

theorem quiet_setUpAll (he : e.Quiet) {cs : List Class}
    (hcs : ∀ c ∈ cs, CoreLibrary.Defines (c.name, c) ∧ CoreLibrary.Has c.name) :
    Quiet (setUpAll e cs) := by
  induction cs with
  | nil => exact .pure ()
  | cons c rest ih =>
    obtain ⟨hc, hrest⟩ := List.forall_mem_cons.1 hcs
    exact .bind (he.setUp c.name c hc.1 hc.2) fun _ => ih hrest

variable {n : ClassName} (hc : CoreLibrary.Defines (n, c)) (hn : CoreLibrary.Has n)

include hc hn

theorem quiet_runSetup (he : e.Quiet) : Quiet (runSetup e c) := by
  obtain ⟨rest, table, hclosed, hfound⟩ := hc
  refine .bind (quiet_seed he c.fields) fun _ => .bind (quiet_setUpAll he fun d hd => ?_) fun _ => ?_
  · have habove : d ∈ c.above true := hd
    exact ⟨⟨rest, table, hclosed, hclosed.above hfound habove⟩,
      CoreLibrary.has_of_mem_above hclosed hfound hn habove⟩
  · rw [CoreLibrary.declaredMethod?_staticInitializer hclosed hfound hn]
    exact .pure ()

theorem quiet_setUpOnce (he : e.Quiet) : Quiet (setUpOnce e c) := by
  refine .bind (.note _) fun _ => .bind (.update (Machine.leaves_setInitState _ _)) fun _ => ?_
  refine .attempt_bind (quiet_runSetup hc hn he) fun r => ?_
  have finish : Quiet (do
      Exec.update (·.setInitState c.name .initialized)
      Exec.note (.initialized c.name)
      Exec.ofTrap r : Exec Unit) :=
    .bind (.update (Machine.leaves_setInitState _ _)) fun _ => .bind (.note _) fun _ => .ofTrap r
  dsimp only
  split
  · exact .bind (.pass _) fun _ => finish
  · exact finish

theorem quiet_setUp (he : e.Quiet) : Quiet (setUp e c) := by
  refine .ending (.bind (.read _) fun state => ?_) (.pass _)
  split
  · refine .locked (.bind (.read _) fun state => ?_)
    split
    · exact quiet_setUpOnce hc hn he
    · exact .pure ()
  · exact .pure ()

end SetUp

end Exec

theorem Engine.quiet_bounded (bound : Nat) : (bounded bound).Quiet := by
  induction bound with
  | zero => exact ⟨fun _ _ _ _ _ _ _ => trivial, fun _ _ _ _ _ => trivial⟩
  | succ bound ih =>
    constructor
    · exact fun n c hc hn => Exec.quiet_setUp hc hn ih
    · intro limit i t s hc
      exact ((Exec.plain_run hc).quiet ih (balanced_bounded bound)).mono fun _ _ _ _ => trivial

end BytecodeMachine
