import BytecodeMachine.Proofs.Balance
import BytecodeMachine.Proofs.Setup.Calls

namespace BytecodeMachine

open Frames

namespace Exec

-- What core classes are constructed by, and what is then so of the thread. A class that is found on the
-- way is only asked for a constructor, and whatever else is done touches the innermost frame at most.
inductive Plain (e : Engine) : {α : Type} → Thread → Exec α → (Except Trap α → Thread → Prop) → Prop
  | pure {α : Type} {t : Thread} {Q : Except Trap α → Thread → Prop} (a : α) (h : Q (.ok a) t) :
      Plain e t (Pure.pure a) Q
  | throw {α : Type} {t : Thread} {Q : Except Trap α → Thread → Prop} (trap : Trap)
      (h : Q (.error trap) t) : Plain e t (MonadExcept.throw trap) Q
  | bind {α β : Type} {t : Thread} {x : Exec α} {f : α → Exec β}
      {P : Except Trap α → Thread → Prop} {Q : Except Trap β → Thread → Prop}
      (hx : Plain e t x P) (ok : ∀ a t', P (.ok a) t' → Plain e t' (f a) Q)
      (error : ∀ trap t', P (.error trap) t' → Q (.error trap) t') : Plain e t (x >>= f) Q
  | get {α : Type} {t : Thread} {f : Thread → Exec α} {Q : Except Trap α → Thread → Prop}
      (h : Plain e t (f t) Q) : Plain e t (MonadState.get >>= f) Q
  | change {t : Thread} {f : Thread → Thread} {Q : Except Trap Unit → Thread → Prop}
      (hf : (f t).id = t.id) (h : Q (.ok ()) (f t)) : Plain e t (modify f) Q
  | attempt {α : Type} {t : Thread} {x : Exec α} {P : Except Trap α → Thread → Prop}
      {Q : Except Trap (Except Trap α) → Thread → Prop} (hx : Plain e t x P)
      (h : ∀ r t', P r t' → Q (.ok r) t') : Plain e t (Exec.attempt x) Q
  | built {α : Type} {t : Thread} {x : Exec α} {r : Reach} {Q : Except Trap α → Thread → Prop}
      (hx : Built e .core r [] x) (h : ∀ res t', r.Effect t res t' → Q res t') : Plain e t x Q
  | pass {t : Thread} {x : Sign} {Q : Except Trap Unit → Thread → Prop} (hx : x.isNeutral = true)
      (h : Q (.ok ()) t) : Plain e t (Exec.pass x) Q
  | constructor {t : Thread} {ref : MethodRef} {Q : Except Trap (Class × Method) → Thread → Prop}
      (hn : ref.name = .constructor) (hk : CoreLibrary.Has ref.klass)
      (ok : ∀ a, CoreLibrary.IsConstructor a.2 → Q (.ok a) t) (error : ∀ trap, Q (.error trap) t) :
      Plain e t (resolveMethod ref) Q
  | run {t : Thread} {limit : Nat} {Q : Except Trap Unit → Thread → Prop}
      (ht : Cores (limit + 1) t.frames) (h : ∀ res t', Q res t') : Plain e t (e.run (limit + 1)) Q

variable {α β : Type} {e : Engine} {limit : Nat} {t : Thread}

namespace Plain

variable {x : Exec α} {f : α → Exec β} {Q : Except Trap β → Thread → Prop}

theorem kin {Q : Except Trap α → Thread → Prop} (hx : Built e .core .host [] x)
    (h : ∀ res t', t.Kin t' → Q res t') : Plain e t x Q :=
  .built hx fun res t' h' => h res t' h'.kin

theorem still (hx : Built e .core .host [] x) (hu : Underway limit t.frames) :
    Plain e t x fun _ t' => Underway limit t'.frames :=
  .kin hx fun _ _ h => h.frames ▸ hu

theorem underway {Q : Except Trap α → Thread → Prop} (hx : Built e .core .frame [] x)
    (hu : Underway limit t.frames) (h : ∀ res t', Underway limit t'.frames → Q res t') :
    Plain e t x Q :=
  .built hx fun res t' h' => h res t' (hu.onStack h'.2)

theorem ok_bind {P : α → Thread → Prop} (hx : Plain e t x fun r t' => ∃ a, r = .ok a ∧ P a t')
    (hf : ∀ a t', P a t' → Plain e t' (f a) Q) : Plain e t (x >>= f) Q := by
  refine .bind hx (fun a t' h => ?_) fun trap t' h => ?_
  · obtain ⟨_, ha, hp⟩ := h
    cases ha
    exact hf a t' hp
  · obtain ⟨_, ha, -⟩ := h
    cases ha

theorem change_bind {g : Thread → Thread} {f : Unit → Exec β} (hg : (g t).id = t.id)
    (hf : Plain e (g t) (f ()) Q) : Plain e t (modify g >>= f) Q :=
  ok_bind (P := fun _ t' => t' = g t) (.change hg ⟨(), rfl, rfl⟩) fun _ _ h => h ▸ hf

theorem pass_bind {y : Sign} {f : Unit → Exec β} (hy : y.isNeutral = true)
    (hf : Plain e t (f ()) Q) : Plain e t (Exec.pass y >>= f) Q :=
  ok_bind (P := fun _ t' => t' = t) (.pass hy ⟨(), rfl, rfl⟩) fun _ _ h => h ▸ hf

theorem attempt_bind {f : Except Trap α → Exec β} {P : Except Trap α → Thread → Prop}
    (hx : Plain e t x P) (hf : ∀ r t', P r t' → Plain e t' (f r) Q) :
    Plain e t (Exec.attempt x >>= f) Q :=
  ok_bind (.attempt hx fun r _ h => ⟨r, rfl, h⟩) hf

end Plain

def Advances (limit : Nat) (r : Except Trap α) (t : Thread) : Prop :=
  match r with
  | .ok _ => Cores limit t.frames
  | .error trap => trap.isCatchable = true → Underway limit t.frames

theorem advances_of_underway {r : Except Trap α} (h : Underway limit t.frames) :
    Advances limit r t := by
  cases r with
  | ok _ => exact h.cores
  | error trap => exact fun _ => h

def Advancing (e : Engine) (limit : Nat) (x : Exec α) : Prop :=
  ∀ t : Thread, Underway limit t.frames → Plain e t x (Advances limit)

namespace Advancing

theorem built {x : Exec α} (h : Built e .core .frame [] x) : Advancing e limit x :=
  fun _ hu => .underway h hu fun _ _ => advances_of_underway

theorem bind_built {x : Exec α} {f : α → Exec β} (h : Built e .core .frame [] x)
    (hf : ∀ a, Advancing e limit (f a)) : Advancing e limit (x >>= f) :=
  fun _ hu => .bind (.underway h hu (Q := fun _ t' => Underway limit t'.frames) fun _ _ h => h)
    (fun a t' h' => hf a t' h') fun _ _ h' _ => h'

end Advancing

theorem advancing_returnFrom : Advancing e limit (returnFrom false) := by
  intro t hu
  refine .get ?_
  generalize t.frames = fs at hu
  cases hu with
  | core hf hc =>
    refine .change_bind rfl ?_
    dsimp only
    rw [Bool.false_and, if_neg Bool.false_ne_true, if_neg Bool.false_ne_true]
    split
    · split
      · exact .throw _ nofun
      · exact .pure () hc
    · exact .pure () hc

theorem advancing_resolveMethod_bind {ref : MethodRef} {f : Class × Method → Exec α}
    (hn : ref.name = .constructor) (hk : CoreLibrary.Has ref.klass)
    (hf : ∀ a, CoreLibrary.IsConstructor a.2 → Advancing e limit (f a)) :
    Advancing e limit (resolveMethod ref >>= f) := by
  intro t hu
  refine .bind (P := fun r t' => Underway limit t'.frames ∧
    ∀ a, r = .ok a → CoreLibrary.IsConstructor a.2) ?_ (fun a t' h => ?_) fun _ _ h _ => h.1
  · exact .constructor hn hk (fun a ha => ⟨hu, fun b hb => by cases hb; exact ha⟩)
      fun _ => ⟨hu, nofun⟩
  · exact hf a (h.2 a rfl) t' h.1

theorem advancing_specialTarget_bind (ref : MethodRef) (owner : Class) {m : Method}
    (hm : m.name = .constructor) {f : Class × Method → Exec α}
    (hf : Advancing e limit (f (owner, m))) :
    Advancing e limit (specialTarget ref owner m >>= f) := by
  intro t hu
  rw [specialTarget, bind_assoc]
  refine .get ?_
  split
  · exact hf t hu
  · rw [if_pos (by simp [hm])]
    exact hf t hu

theorem plain_enterFrame (c : Class) {m : Method} (hm : CoreLibrary.IsConstructor m)
    (arguments : List Value) (hu : Underway limit t.frames) :
    Plain e t (enterFrame c m arguments) (Advances limit) := by
  have next (t1 : Thread) (hu1 : Underway limit t1.frames) : Plain e t1 (do
      let f ← ofExcept (Frame.enter c m arguments)
      modify (·.push f) : Exec Unit) (Advances limit) := by
    cases hf : Frame.enter c m arguments with
    | error fault => exact .throw _ nofun
    | ok f => exact .change rfl (.core ⟨⟨c, m⟩, Frame.activation_of_enter hf, hm⟩ hu1.cores)
  have hread : Built e .core .host [] (read (·.journal.keeps .debug)) := .read _
  refine .bind (.still hread hu) (fun b t1 h1 => ?_) fun _ _ h _ => h
  split
  · exact .get (.pass_bind rfl (next t1 h1))
  · exact next t1 h1

theorem advancing_enterMethod (owner : Class) {m : Method} (hm : CoreLibrary.IsConstructor m)
    (arguments : List Value) : Advancing e limit (enterMethod e owner m arguments) := by
  intro t hu
  unfold enterMethod
  rw [if_neg (by rw [hm.2.1]; exact Bool.false_ne_true)]
  split
  · exact .throw _ fun _ => hu
  · exact plain_enterFrame owner hm arguments hu

theorem advancing_callSpecial (ref : MethodRef) (owner : Class) {m : Method}
    (hm : CoreLibrary.IsConstructor m) : Advancing e limit (do
      let (c, target) ← specialTarget ref owner m
      let arguments ← inFrame (.popMany (m.type.parameters.length + 1))
      let _ ← receiverOf target arguments
      if target.isAbstract then
        raise (.bodiless target.ref)
      enterMethod e c target arguments : Exec Unit) := by
  refine advancing_specialTarget_bind ref owner hm.1 (.bind_built (.popMany _) fun arguments => ?_)
  refine .bind_built (.receiverOf m arguments) fun o => ?_
  dsimp only
  split
  · exact .bind_built (.raise _) fun _ => advancing_enterMethod owner hm arguments
  · exact advancing_enterMethod owner hm arguments

theorem advancing_invokeSpecial (ref : MethodRef) (owner : Class) {m : Method}
    (hm : CoreLibrary.IsConstructor m) : Advancing e limit (invokeSpecial e ref owner m) := by
  unfold invokeSpecial
  dsimp only
  split
  · exact .bind_built (.raise _) fun _ => advancing_callSpecial ref owner hm
  · exact advancing_callSpecial ref owner hm

theorem advancing_execute {x : Instruction} (hx : x.isBasic = true) :
    Advancing e limit (execute e x) := by
  cases x with
  | load k slot => exact .built (.frame _ (FrameM.stackOnly_loadLocal k slot))
  | putField f => exact .built (.putField f)
  | returnVoid => exact advancing_returnFrom
  | invoke k m =>
    cases k with
    | special =>
      simp only [Instruction.isBasic, Bool.and_eq_true, decide_eq_true_eq] at hx
      exact advancing_resolveMethod_bind hx.1 hx.2 fun a ha => advancing_invokeSpecial m a.1 ha
    | _ => cases hx
  | _ => cases hx

theorem isBasic_of_instruction? {f : Frame} (hf : f.IsCore) {pc : Nat} {x : Instruction}
    (hx : f.instruction? pc = some x) : x.isBasic = true := by
  obtain ⟨a, ha, -, -, code, hcode, hbasic⟩ := hf
  simp only [Frame.instruction?, Frame.code?, ha, Option.bind_some, hcode] at hx
  simp only [Code.isBasic, Bool.and_eq_true, List.all_eq_true] at hbasic
  exact hbasic.2 x (Array.mem_toList_iff.2 (Array.mem_of_getElem? hx))

theorem handlersAt_of_isCore {f : Frame} (hf : f.IsCore) (pc : Nat) :
    (f.code?.map (·.handlersAt pc)).getD [] = [] := by
  obtain ⟨a, ha, -, -, code, hcode, hbasic⟩ := hf
  simp only [Code.isBasic, Bool.and_eq_true, List.isEmpty_iff] at hbasic
  simp only [Frame.code?, ha, Option.bind_some, hcode, Option.map_some, Option.getD_some,
    Code.handlersAt, hbasic.1, List.filter_nil]

def Fetches (limit : Nat) (r : Except Trap (Method × Nat × Instruction)) (t : Thread) : Prop :=
  Underway limit t.frames ∧
    match r with
    | .ok a => a.2.2.isBasic = true
    | .error _ => True

theorem plain_fetch (hu : Underway limit t.frames) : Plain e t fetch (Fetches limit) := by
  refine .get ?_
  have same := hu
  generalize t.frames = fs at hu
  cases hu with
  | @core f rest hf hc =>
    dsimp only
    split
    · exact .change_bind rfl (.throw _ ⟨.core hf hc, trivial⟩)
    · split
      · exact .throw _ ⟨same, trivial⟩
      · split
        · exact .throw _ ⟨same, trivial⟩
        · rename_i a _ _ x hx
          refine .change_bind rfl ?_
          have hw : Built e .core .host [] (fetch.warn a.method (f.steps + 1)) := .warn _ _
          have hu' : Underway limit (f.stepped :: rest) := .core hf hc
          refine .bind (.still hw hu') (fun _ t' h => ?_) fun _ _ h => ⟨h, trivial⟩
          exact .pure _ ⟨h, isBasic_of_instruction? hf hx⟩

theorem advancing_step : Advancing e limit (step e) := by
  intro t hu
  refine .bind (plain_fetch hu) (fun a t1 h1 => ?_) fun _ _ h1 _ => h1.1
  exact .pass_bind rfl (advancing_execute h1.2 t1 h1.1)

theorem plain_dispatch (o : ObjectId) (hu : Underway (limit + 1) t.frames) :
    Plain e t (dispatch e o) fun r t' => r = .ok () → Cores (limit + 1) t'.frames := by
  refine .get ?_
  generalize t.frames = fs at hu
  cases hu with
  | @core f rest hf hc =>
    have hblank : f.isBlank = false := by
      obtain ⟨a, ha, -⟩ := hf
      rw [Frame.isBlank, ha]
      rfl
    dsimp only
    rw [if_neg (by rw [hblank]; exact Bool.false_ne_true), handlersAt_of_isCore hf]
    have hclass : Built e .core .host [] (classOf o) := .classOf o
    refine .bind (.kin hclass (Q := fun _ _ => True) fun _ _ _ => trivial) (fun c t1 _ => ?_)
      fun _ _ _ => nofun
    cases rest with
    | nil => cases hc.le_length
    | cons caller rest =>
      rw [show findHandler c [] = pure none from rfl, pure_bind]
      exact .change_bind rfl (.change rfl fun _ => hc.change rfl)

theorem plain_abort (trap : Trap) (limit : Nat) {Q : Except Trap Unit → Thread → Prop}
    (h : ∀ other t', Q (.error other) t') : Plain e t (abort trap (limit + 1)) Q := by
  have fatal (fault : Fault) : Plain e t (abort.abortFatal (limit + 1) fault) Q := by
    refine .change_bind ?_ (.throw _ (h _ _))
    rfl
  cases trap with
  | throw o => exact .throw _ (h _ _)
  | raise cause => exact fatal _
  | fatal fault => exact fatal fault
  | exit => exact .throw _ (h _ _)

theorem plain_handleTrap (trap : Trap)
    (hu : trap.isCatchable = true → Underway (limit + 1) t.frames) :
    Plain e t (handleTrap e trap (limit + 1)) fun r t' =>
      r = .ok () → Cores (limit + 1) t'.frames := by
  have caught (hc : trap.isCatchable = true) : Plain e t (handleTrap e trap (limit + 1))
      fun r t' => r = .ok () → Cores (limit + 1) t'.frames := by
    have hbuilt : Built e .core .host [] (handleTrap.thrown e trap) := .thrown trap
    refine .attempt_bind (.still hbuilt (hu hc)) fun r t1 h1 => ?_
    cases r with
    | error other => exact plain_abort other limit fun _ _ => nofun
    | ok o =>
      refine .attempt_bind (plain_dispatch o h1) fun r t2 h2 => ?_
      cases r with
      | error other => exact plain_abort other limit fun _ _ => nofun
      | ok _ => exact .pure () fun _ => h2 rfl
  cases trap with
  | throw o => exact caught rfl
  | raise cause => exact caught rfl
  | fatal fault => exact plain_abort (.fatal fault) limit fun _ _ => nofun
  | exit => exact plain_abort .exit limit fun _ _ => nofun

theorem plain_run (hc : Cores (limit + 1) t.frames) :
    Plain e t (run e (limit + 1)) fun _ _ => True := by
  refine .get ?_
  split
  · exact .pure () trivial
  · rename_i hw
    rw [Thread.isWithin_iff, Thread.depth, Nat.not_le] at hw
    have hturn : Built e .core .host [] turn := .lift Prog.isMild_turn
    have hstop : Built e .core .host [] shouldTerminate := .bind .get fun t => .read _
    refine .bind (.still hturn (hc.underway hw)) (fun _ t1 h1 => ?_) fun _ _ _ => trivial
    refine .bind (.still hstop h1) (fun stop t2 h2 => ?_) fun _ _ _ => trivial
    split
    · exact plain_abort .exit limit fun _ _ => trivial
    · refine .attempt_bind (advancing_step t2 h2) fun r t3 h3 => ?_
      cases r with
      | ok _ => exact .run h3 fun _ _ => trivial
      | error trap =>
        refine .pass_bind rfl (.bind (plain_handleTrap trap h3) (fun _ t4 h4 => ?_) fun _ _ _ => trivial)
        exact .run (h4 rfl) fun _ _ => trivial

section Settling

variable {i : Nat} {s : Scene}

theorem Plain.settles (he : e.Settled) (hb : e.Balanced) {x : Exec α}
    {Q : Except Trap α → Thread → Prop} (h : Plain e t x Q) (ht : t.id = i) (hs : s.Coherent) :
    x.Meets (.setup i) t (fun r t' s' => Settles i s r t' s' ∧ Q r t') s := by
  induction h generalizing s with
  | pure a h => exact ⟨⟨ht, .refl i hs⟩, h⟩
  | throw trap h => exact ⟨⟨ht, .refl i hs⟩, h⟩
  | bind _ _ error ihx ihok =>
    refine meets_bind.2 ((ihx ht hs).mono fun r t1 s1 h1 => ?_)
    obtain ⟨⟨ht1, hp1⟩, hq1⟩ := h1
    cases r with
    | error trap => exact ⟨⟨ht1, hp1⟩, error trap t1 hq1⟩
    | ok a =>
      rw [after_ok]
      refine (ihok a t1 hq1 ht1 hp1.coherent).mono fun _ _ _ h => ?_
      exact ⟨⟨h.1.1, hp1.trans h.1.2⟩, h.2⟩
  | get _ ih => exact meets_bind.2 (ih ht hs)
  | change hf h => exact ⟨⟨hf.trans ht, .refl i hs⟩, h⟩
  | attempt _ h ih => exact meets_attempt.2 ((ih ht hs).mono fun r t' _ h' => ⟨h'.1, h r t' h'.2⟩)
  | @built _ t _ _ _ hx h =>
    refine ((hx.settling he i t s ht (hs.admits i)).and_free (hx.effect hb t i s)).mono ?_
    exact fun r t' _ h' => ⟨h'.1, h r t' h'.2⟩
  | pass hx h =>
    exact lift_neutral (Prog.isNeutral_pass hx) hs fun _ _ hs' hr => ⟨⟨ht, hr.passage hs'⟩, h⟩
  | @constructor t ref _ hn hk ok error =>
    rw [resolveMethod, meets_bind, meets_get, after_ok]
    refine resolve_within (Resolving.keeps_resolveMethod ref t.context?) hs
      (fun a s1 hs1 hr1 h => ?_) fun trap s1 hs1 hr1 => ⟨⟨ht, hr1.passage hs1⟩, error trap⟩
    obtain ⟨-, ⟨c, hc, hm⟩, -⟩ := h
    obtain ⟨rest, hl⟩ := hs1.libraries
    have hclosed := hs1.closed
    rw [hl] at hclosed
    exact ⟨⟨ht, hr1.passage hs1⟩, ok a (CoreLibrary.isConstructor_of_lookup hclosed hc hk hn hm)⟩
  | @run t limit _ hc h =>
    exact (he.construct limit i t s ht hs hc).mono fun r t' _ h' => ⟨h', h r t'⟩

theorem run_constructs (he : e.Settled) (hb : e.Balanced) (ht : t.id = i) (hs : s.Coherent)
    (hc : Cores (limit + 1) t.frames) :
    (run e (limit + 1)).Meets (.setup i) t (Settles i s) s :=
  ((plain_run hc).settles he hb ht hs).mono fun _ _ _ h => h.1

end Settling

end Exec

end BytecodeMachine
