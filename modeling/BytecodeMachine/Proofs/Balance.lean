import BytecodeMachine.Engine
import BytecodeMachine.Proofs.Construction.Code
import BytecodeMachine.Proofs.Contract
import BytecodeMachine.Proofs.Frames

namespace BytecodeMachine

variable {α β : Type}

namespace Exec

open Frames

def Reach.Effect (r : Reach) (t : Thread) (res : Except Trap α) (t' : Thread) : Prop :=
  t.Akin t' ∧ match r with
    | .host => t'.frames = t.frames
    | .frame => OnStack t.frames t'.frames
    | .call => Called t.frames res t'.frames

theorem Reach.effect_of_kin {r : Reach} {t t' : Thread} {res : Except Trap α} (h : t.Kin t') :
    r.Effect t res t' := by
  have hs : OnStack t.frames t'.frames := by
    rw [h.frames]
    exact .refl _
  cases r with
  | host => exact ⟨h.akin, h.frames⟩
  | frame => exact ⟨h.akin, hs⟩
  | call => exact ⟨h.akin, .onStack hs⟩

theorem Reach.effect_refl (r : Reach) (t : Thread) (res : Except Trap α) : r.Effect t res t :=
  effect_of_kin (.refl t)

theorem Reach.effect_error {r : Reach} {t t' : Thread} {trap : Trap}
    (h : r.before.Effect t (.error trap : Except Trap α) t') :
    r.Effect t (.error trap : Except Trap β) t' := by
  cases r with
  | host => exact h
  | frame => exact h
  | call => exact ⟨h.1, .entered (.failed h.2)⟩

theorem Reach.effect_bind {r : Reach} {t t1 t2 : Thread} {a : α} {res : Except Trap β}
    (h : r.before.Effect t (.ok a : Except Trap α) t1) (h' : r.Effect t1 res t2) :
    r.Effect t res t2 := by
  cases r with
  | host => exact ⟨h.1.trans h'.1, h'.2.trans h.2⟩
  | frame => exact ⟨h.1.trans h'.1, h.2.trans h'.2⟩
  | call => exact ⟨h.1.trans h'.1, Called.after h.2 h'.2⟩

theorem Reach.Effect.kin {t t' : Thread} {res : Except Trap α} (h : Reach.host.Effect t res t') :
    t.Kin t' :=
  ⟨h.1, h.2⟩

end Exec

namespace Engine

open Frames

structure Balanced (e : Engine) : Prop where
  setUp : ∀ (c : Class) (t : Thread) (i : Nat) (s : Scene),
    (e.setUp c).Meets (.free i) t (fun _ t' _ => t.Kin t') s
  native : ∀ (m : Method) (arguments : List Value) (t : Thread) (i : Nat) (s : Scene),
    (e.native m arguments).Meets (.free i) t (fun _ t' _ => t.Kin t') s
  run : ∀ (pre : Frames) (b : Frame) (rest : Frames) (t : Thread) (i : Nat) (s : Scene),
    t.frames = pre ++ b :: rest →
    (e.run (rest.length + 1)).Meets (.free i) t (fun r t' _ => t.Akin t' ∧
      match r with
      | .ok () => ∃ b', b.Received b' ∧ (pre = [] → b' = b) ∧ t'.frames = b' :: rest
      | .error trap => trap.isCatchable = false ∧ ∃ pre b', t'.frames = pre ++ b' :: rest) s

end Engine

namespace Exec

open Frames

variable {e : Engine} {t : Thread} {i : Nat} {s : Scene}

theorem inFrame_effect {r : Reach} {action : FrameM α} (ha : r.Allows action) :
    (inFrame action).Meets (.free i) t (fun res t' _ => r.Effect t res t') s := by
  cases hf : t.frames with
  | nil => exact (meets_inFrame_nil hf).2 (Reach.effect_refl _ _ _)
  | cons f rest =>
    refine (meets_inFrame_cons hf).2 ?_
    cases r with
    | host => exact ha.elim
    | frame =>
      obtain ⟨stack, hs⟩ := ha f
      refine ⟨⟨rfl, rfl, rfl⟩, ?_⟩
      dsimp only
      rw [hs, hf]
      exact .stack f stack rest
    | call =>
      refine ⟨⟨rfl, rfl, rfl⟩, ?_⟩
      dsimp only
      rw [hf]
      rcases hr : action.run.run f with ⟨_ | a, f'⟩
      · rename_i trap
        obtain ⟨stack, hs⟩ := ha.failed f trap (by rw [hr])
        rw [hr] at hs
        cases hs
        exact .entered (.failed (.stack f stack rest))
      · exact .entered (.same ⟨rfl, rfl⟩)

theorem enterFrame_entered (c : Class) (m : Method) (arguments : List Value) :
    (enterFrame c m arguments).Meets (.free i) t
      (fun r t' _ => t.Akin t' ∧ Entered t.frames r t'.frames) s := by
  have next (s : Scene) : (do
      let f ← ofExcept (Frame.enter c m arguments)
      modify (·.push f) : Exec Unit).Meets (.free i) t
        (fun r t' _ => t.Akin t' ∧ Entered t.frames r t'.frames) s := by
    cases Frame.enter c m arguments with
    | ok f => exact ⟨⟨rfl, rfl, rfl⟩, .pushed f (.refl t.frames)⟩
    | error fault => exact ⟨⟨rfl, rfl, rfl⟩, .failed (.refl t.frames)⟩
  refine lift_bind_meets_free (fun b s => ?_) _
  dsimp only
  split
  · rw [meets_bind, meets_get, after_ok]
    exact lift_bind_meets_free (fun _ s => next s) _
  · exact next s

theorem enterMethod_entered (he : e.Balanced) (c : Class) (m : Method) (arguments : List Value) :
    (enterMethod e c m arguments).Meets (.free i) t
      (fun r t' _ => t.Akin t' ∧ Entered t.frames r t'.frames) s := by
  unfold enterMethod
  split
  · refine meets_bind.2 ((he.native m arguments t i s).mono fun r t' s' h => ?_)
    have same : OnStack t.frames t'.frames := by
      rw [h.frames]
      exact .refl _
    cases r with
    | error trap => exact ⟨h.akin, .onStack same⟩
    | ok v =>
      cases v with
      | none => exact ⟨h.akin, .onStack same⟩
      | some v =>
        rw [after_ok]
        have ha : Reach.frame.Allows (FrameM.push v) := FrameM.stackOnly_push v
        refine (inFrame_effect ha).mono fun _ _ _ h' => ?_
        exact ⟨h.akin.trans h'.1, .onStack (same.trans h'.2)⟩
  · split
    · exact ⟨.refl t, .failed (.refl _)⟩
    · exact enterFrame_entered c m arguments

theorem deliver_called (f : Frame) (rest : Frames) (v : Option Value) :
    (match v, rest with
      | some v, _ :: _ => push v
      | _, _ => pure () : Exec Unit).Meets (.free i) { t with frames := rest }
        (fun r t' _ => t.Akin t' ∧ Called (f :: rest) r t'.frames) s := by
  cases v with
  | none => exact ⟨⟨rfl, rfl, rfl⟩, .left (.plain rfl)⟩
  | some v =>
    cases rest with
    | nil => exact ⟨⟨rfl, rfl, rfl⟩, .left (.plain rfl)⟩
    | cons c rest => exact (meets_inFrame_cons rfl).2 ⟨⟨rfl, rfl, rfl⟩, .left (.value v rfl)⟩

theorem returnFrom_effect (hasValue : Bool) :
    (returnFrom hasValue).Meets (.free i) t (fun r t' _ => Reach.call.Effect t r t') s := by
  unfold returnFrom
  rw [meets_bind, meets_get, after_ok]
  cases hf : t.frames with
  | nil =>
    rw [meets_fail]
    exact Reach.effect_refl _ _ _
  | cons f rest =>
    have lost (fault : Fault) : Reach.call.Effect t (.error (.fatal fault) : Except Trap Unit)
        { t with frames := rest } :=
      ⟨⟨rfl, rfl, rfl⟩, .lost rfl hf⟩
    rw [meets_bind, meets_modify, after_ok]
    dsimp only
    generalize (if hasValue = true then f.stack.head? else none) = v
    have finish := deliver_called (t := t) (i := i) (s := s) f rest v
    rw [← hf] at finish
    split
    · exact lost _
    · split
      · split
        · exact lost _
        · exact finish
      · exact finish

theorem takeResult_kin {b : Frame} {rest : Frames} {t' : Thread} (ht : t.Akin t')
    (hf : t'.frames = b :: rest) (hr : rest = t.frames) :
    takeResult.Meets (.free i) t' (fun _ t'' _ => t.Kin t'') s := by
  refine meets_bind.2 (meets_get.2 ?_)
  rw [after_ok, hf]
  refine meets_bind.2 (meets_modify.2 ?_)
  rw [after_ok]
  split <;> exact ⟨⟨ht.id, ht.uncaught, ht.fatalReported⟩, hr⟩

theorem truncate_kin {pre : Frames} {b : Frame} {t' : Thread} (ht : t.Akin t')
    (hf : t'.frames = pre ++ b :: t.frames) : t.Kin (t'.truncate t.depth) := by
  refine ⟨⟨ht.id, ht.uncaught, ht.fatalReported⟩, ?_⟩
  have hf' : t'.frames = (pre ++ [b]) ++ t.frames := by simpa using hf
  simp only [Thread.truncate, Thread.depth, hf']
  rw [List.length_append, Nat.add_sub_cancel, List.drop_left]

theorem invokeMethod_kin (he : e.Balanced) (c : Class) (m : Method) (arguments : List Value) :
    (invokeMethod e c m arguments).Meets (.free i) t (fun _ t' _ => t.Kin t') s := by
  unfold invokeMethod
  refine lift_bind_meets_free (fun _ s => ?_) _
  rw [meets_bind, meets_get, after_ok, meets_bind, meets_modify, after_ok, meets_bind,
    meets_attempt, meets_bind]
  refine (enterMethod_entered he c m arguments).mono fun r t1 s1 h1 => ?_
  have ht1 : t.Akin t1 := ⟨h1.1.id, h1.1.uncaught, h1.1.fatalReported⟩
  obtain ⟨pre, b, hf⟩ := h1.2.over
  cases r with
  | error trap =>
    rw [after_error, after_ok, meets_bind, meets_modify, after_ok, meets_throw]
    exact truncate_kin ht1 hf
  | ok _ =>
    rw [after_ok]
    refine (he.run pre b t.frames t1 i s1 hf).mono fun r t2 s2 h2 => ?_
    have ht2 := ht1.trans h2.1
    cases r with
    | ok _ =>
      obtain ⟨b', -, -, hf'⟩ := h2.2
      exact takeResult_kin ht2 hf' rfl
    | error trap =>
      obtain ⟨-, pre, b', hf'⟩ := h2.2
      rw [after_ok, meets_bind, meets_modify, after_ok, meets_throw]
      exact truncate_kin ht2 hf'

theorem Built.effect (he : e.Balanced) {z : Realm} {r : Reach} {known : Known} {x : Exec α}
    (h : Built e z r known x) (t : Thread) (i : Nat) (s : Scene) :
    x.Meets (.free i) t (fun res t' _ => r.Effect t res t') s := by
  induction h generalizing t s with
  | pure a => exact meets_pure.2 (Reach.effect_refl _ _ _)
  | throw trap => exact meets_throw.2 (Reach.effect_refl _ _ _)
  | bind _ _ ihx ihf =>
    refine meets_bind.2 ((ihx t s).mono fun res t' s' h => ?_)
    cases res with
    | ok a => exact (ihf a t' s').mono fun _ _ _ h' => Reach.effect_bind h h'
    | error trap => exact Reach.effect_error h
  | get => exact meets_get.2 (Reach.effect_refl _ _ _)
  | modify h => exact meets_modify.2 (Reach.effect_of_kin (h t).toKin)
  | lift h => exact lift_meets_free (fun _ _ => Reach.effect_refl _ _ _) _
  | enroll =>
    exact lift_bind_meets_free
      (fun _ _ => lift_meets_free (fun _ _ => Reach.effect_refl _ _ _) _) _
  | keep c text _ ih =>
    refine lift_bind_meets_free (fun o s' => meets_bind.2 ((ih o t s').mono fun res t' s' h => ?_)) _
    cases res with
    | ok a =>
      rw [after_ok]
      refine lift_meets_free (fun _ _ => ?_) _
      exact Reach.effect_bind h (Reach.effect_refl _ _ _)
    | error trap => exact Reach.effect_error h
  | report =>
    refine meets_bind.2 (meets_get.2 ?_)
    rw [after_ok]
    exact lift_meets_free (fun _ _ => Reach.effect_refl _ _ _) _
  | looking h => exact lift_meets_free (fun _ _ => Reach.effect_refl _ _ _) _
  | resolving h _ ihf =>
    refine meets_bind.2 (meets_resolve.2 (Prog.meets_free (fun res s' => ?_) _ s))
    cases res with
    | ok a => exact ihf a t s'
    | error err => exact Reach.effect_refl _ _ _
  | locked _ ih =>
    refine meets_locked.2 (Prog.meets_free (fun _ s' => ?_) _ s)
    refine (ih t s').mono fun res t' s' h => Prog.meets_free (fun _ s' => ?_) _ s'
    exact Reach.effect_of_kin h.kin
  | setUp hc hz => exact (he.setUp _ t i s).mono fun _ _ _ h => Reach.effect_of_kin h
  | invoke arguments ho hz =>
    exact (invokeMethod_kin he _ _ arguments).mono fun _ _ _ h => Reach.effect_of_kin h
  | recover _ ok caught passed ihx ihok ihcaught =>
    refine meets_bind.2 (meets_attempt.2 ((ihx t s).mono fun res t' s' h => ?_))
    cases res with
    | ok a =>
      rw [after_ok]
      exact (ihok a t' s').mono fun _ _ _ h' => Reach.effect_of_kin (h.kin.trans h'.kin)
    | error trap =>
      cases ht : trap.isCatchable with
      | true =>
        rw [after_ok]
        refine (ihcaught trap ht t' s').mono fun _ _ _ h' => ?_
        exact Reach.effect_of_kin (h.kin.trans h'.kin)
      | false =>
        obtain ⟨g, hg, hf⟩ := passed trap ht
        rw [after_ok, hf, meets_bind, meets_modify, after_ok, meets_throw]
        exact Reach.effect_of_kin (h.kin.trans (hg t').toKin)
  | frame action ha => exact inFrame_effect ha
  | enter arguments ho hz =>
    exact (enterMethod_entered he _ _ arguments).mono fun _ _ _ h => ⟨h.1, .entered h.2⟩
  | leave hasValue => exact returnFrom_effect hasValue

theorem Built.kin (he : e.Balanced) {z : Realm} {known : Known} {x : Exec α}
    (h : Built e z .host known x) (t : Thread) (i : Nat) (s : Scene) :
    x.Meets (.free i) t (fun _ t' _ => t.Kin t') s :=
  (h.effect he t i s).mono fun _ _ _ h' => h'.kin

theorem setStatic_kin (f : Field) (v : Value) :
    (setStatic f v).Meets (.free i) t (fun _ t' _ => t.Kin t') s := by
  refine meets_locked.2 (Prog.meets_free (fun _ s' => ?_) _ s)
  exact lift_meets_free (fun _ s' => Prog.meets_free (fun _ _ => .refl t) _ s') _

theorem Storing.effect (he : e.Balanced) {r : Reach} {x : Exec α} (h : Storing e r x)
    (t : Thread) (i : Nat) (s : Scene) :
    x.Meets (.free i) t (fun res t' _ => r.Effect t res t') s := by
  induction h generalizing t s with
  | built h => exact h.effect he t i s
  | bind _ _ ihx ihf =>
    refine meets_bind.2 ((ihx t s).mono fun res t' s' h => ?_)
    cases res with
    | ok a => exact (ihf a t' s').mono fun _ _ _ h' => Reach.effect_bind h h'
    | error trap => exact Reach.effect_error h
  | store f v => exact (setStatic_kin f v).mono fun _ _ _ h => Reach.effect_of_kin h

theorem Reporting.frames (he : e.Balanced) {x : Exec α} (h : Reporting e x) (t : Thread) (i : Nat)
    (s : Scene) : x.Meets (.free i) t (fun _ t' _ => t'.frames = t.frames) s := by
  induction h generalizing t s with
  | built h => exact (h.kin he t i s).mono fun _ _ _ h' => h'.frames
  | bind _ _ ihx ihf =>
    refine meets_bind.2 ((ihx t s).mono fun r t1 s1 h => ?_)
    cases r with
    | ok a => exact (ihf a t1 s1).mono fun _ _ _ h' => h'.trans h
    | error trap => exact h
  | forget => exact rfl
  | blame o => exact rfl

theorem warn_kin (m : Method) (steps : Nat) :
    (fetch.warn m steps).Meets (.free i) t (fun r t' _ => r = .ok () ∧ t' = t) s := by
  refine lift_bind_meets_free (fun every s => ?_) _
  split
  · rw [meets_bind, meets_get, after_ok]
    exact lift_meets_free (fun _ _ => ⟨rfl, rfl⟩) _
  · exact ⟨rfl, rfl⟩

theorem fetch_effect :
    fetch.Meets (.free i) t (fun r t' _ => t.Akin t' ∧ SameBelow t.frames t'.frames ∧
      ∀ f rest, t.frames = f :: rest → f.tossed = none →
        match r with
        | .ok _ => t'.frames = f.stepped :: rest
        | .error trap => trap.isCatchable = false) s := by
  unfold fetch
  rw [meets_bind, meets_get, after_ok]
  cases hf : t.frames with
  | nil =>
    rw [meets_fail]
    exact ⟨.refl t, by rw [hf]; exact .refl [], nofun⟩
  | cons f rest =>
    have same : t.Akin t ∧ SameBelow (f :: rest) t.frames := ⟨.refl t, by rw [hf]; exact .refl _⟩
    dsimp only
    split
    · rename_i o ho
      rw [meets_bind, meets_modify, after_ok, meets_throw]
      refine ⟨⟨rfl, rfl, rfl⟩, ⟨rfl, rfl⟩, fun g _ hg hn => ?_⟩
      cases hg
      rw [hn] at ho
      cases ho
    · split
      · exact ⟨same.1, same.2, fun _ _ _ _ => rfl⟩
      · split
        · exact ⟨same.1, same.2, fun _ _ _ _ => rfl⟩
        · rw [meets_bind, meets_modify, after_ok, meets_bind]
          refine (warn_kin _ _).mono fun r t' s' h => ?_
          obtain ⟨rfl, rfl⟩ := h
          exact ⟨⟨rfl, rfl, rfl⟩, ⟨rfl, rfl⟩, fun g _ hg _ => by cases hg; rfl⟩

inductive Stepped (t : Thread) (r : Except Trap Unit) (t' : Thread) : Prop
  | called {t1 : Thread} (h1 : t.Akin t1) (hs : SameBelow t.frames t1.frames)
      (hf : ∀ f rest, t.frames = f :: rest → f.tossed = none → t1.frames = f.stepped :: rest)
      (h2 : t1.Akin t') (hc : Called t1.frames r t'.frames)
  | unfetched (trap : Trap) (hr : r = .error trap) (h : t.Akin t')
      (hs : SameBelow t.frames t'.frames)
      (hf : ∀ f rest, t.frames = f :: rest → f.tossed = none → trap.isCatchable = false)

theorem step_stepped (he : e.Balanced) :
    (step e).Meets (.free i) t (fun r t' _ => Stepped t r t') s := by
  unfold step
  rw [meets_bind]
  refine fetch_effect.mono fun r t1 s1 h1 => ?_
  cases r with
  | error trap => exact .unfetched trap rfl h1.1 h1.2.1 h1.2.2
  | ok a =>
    rw [after_ok]
    refine lift_bind_meets_free (fun _ s' => ?_) _
    refine ((Storing.execute a.2.2).effect he t1 i s').mono fun r t' _ h => ?_
    exact .called h1.1 h1.2.1 h1.2.2 h.1 h.2

theorem Stepped.akin {r : Except Trap Unit} {t' : Thread} (h : Stepped t r t') : t.Akin t' := by
  cases h with
  | called h1 _ _ h2 => exact h1.trans h2
  | unfetched _ _ h => exact h

theorem Stepped.above {f b : Frame} {pre rest : Frames} {t' : Thread} (h : Stepped t (.ok ()) t')
    (hf : t.frames = f :: pre ++ b :: rest) : Above b rest t'.frames := by
  cases h with
  | called _ hs _ _ hc =>
    rw [hf] at hs
    obtain ⟨f', hf'⟩ := hs.cons
    rw [hf'] at hc
    exact .of_called hc
  | unfetched _ hr => cases hr

theorem Stepped.error {f : Frame} {rest : Frames} {trap : Trap} {t' : Thread}
    (h : Stepped t (.error trap) t') (hf : t.frames = f :: rest) :
    (∃ f', t'.frames = f' :: rest) ∨ trap.isCatchable = false ∧ t'.frames = rest := by
  cases h with
  | called _ hs _ _ hc =>
    rw [hf] at hs
    obtain ⟨f', hf'⟩ := hs.cons
    rw [hf'] at hc
    rcases hc.error with ⟨stack, h⟩ | h
    · exact .inl ⟨_, h⟩
    · exact .inr h
  | unfetched _ _ _ hs =>
    rw [hf] at hs
    exact .inl hs.cons

theorem abort_kin (trap : Trap) (limit : Nat) (ht : ∀ o, trap ≠ .throw o) :
    (abort trap (limit + 1)).Meets (.free i) t
      (fun r t' _ => (∃ trap', trap'.isCatchable = false ∧ r = .error trap') ∧ t.Kin t') s := by
  cases trap with
  | throw o => exact absurd rfl (ht o)
  | exit => exact ⟨⟨.exit, rfl, rfl⟩, .refl t⟩
  | fatal fault => exact ⟨⟨.fatal fault, rfl, rfl⟩, ⟨⟨rfl, rfl, rfl⟩, rfl⟩⟩
  | raise cause => exact ⟨⟨.fatal _, rfl, rfl⟩, ⟨⟨rfl, rfl, rfl⟩, rfl⟩⟩

def NeverThrows (x : Exec α) : Prop :=
  ∀ (t : Thread) (i : Nat) (s : Scene),
    x.Meets (.free i) t (fun r _ _ => ∀ o, r ≠ .error (.throw o)) s

namespace NeverThrows

theorem pure (a : α) : NeverThrows (Pure.pure a) := fun _ _ _ _ => nofun

theorem fail (fault : Fault) : NeverThrows (Exec.fail fault : Exec α) := fun _ _ _ _ => nofun

theorem lift (p : Prog α) : NeverThrows (Exec.lift p) :=
  fun _ _ _ => lift_meets_free (fun _ _ _ => nofun) p

theorem changed (f : Thread → Thread) : NeverThrows (modify f : Exec PUnit) :=
  fun _ _ _ _ => nofun

theorem get : NeverThrows (MonadState.get : Exec Thread) := fun _ _ _ _ => nofun

theorem bind {x : Exec α} {f : α → Exec β} (hx : NeverThrows x) (hf : ∀ a, NeverThrows (f a)) :
    NeverThrows (x >>= f) := by
  intro t i s
  refine meets_bind.2 ((hx t i s).mono fun r t' s' h => ?_)
  cases r with
  | ok a => exact hf a t' i s'
  | error trap => exact fun o ho => h o (by cases ho; rfl)

theorem attempt_bind {x : Exec α} {f : Except Trap α → Exec β} (hf : ∀ r, NeverThrows (f r)) :
    NeverThrows (attempt x >>= f) := by
  intro t i s
  exact meets_bind.2 (meets_attempt.2 (meets_free (fun r t' s' => hf r t' i s') x))

theorem classOf (o : ObjectId) : NeverThrows (Exec.classOf o) := by
  refine bind (bind (lift _) fun found => ?_) fun object => pure _
  cases found with
  | some object => exact pure object
  | none => exact fail _

theorem findHandler (c : Class) (handlers : List Handler) :
    NeverThrows (Exec.findHandler c handlers) := by
  induction handlers with
  | nil => exact pure none
  | cons h rest ih =>
    unfold Exec.findHandler
    split
    · exact pure _
    · refine bind (lift _) fun found => ?_
      cases found with
      | error err => exact fail _
      | ok catchType =>
        dsimp only
        split
        · exact pure _
        · exact ih

theorem thrown (e : Engine) (trap : Trap) : NeverThrows (handleTrap.thrown e trap) := by
  cases trap with
  | throw o => exact pure o
  | fatal fault => exact fail fault
  | exit => exact fun _ _ _ _ => nofun
  | raise cause =>
    refine attempt_bind fun r => ?_
    rcases r with (_ | _ | _ | _) | o
    · exact pure _
    · exact fun _ _ _ _ => nofun
    · exact fail _
    · exact fun _ _ _ _ => nofun
    · exact pure o

theorem runHandler (e : Engine) (o : ObjectId) : NeverThrows (Exec.runHandler e o) := by
  refine bind (lift _) fun hook => ?_
  split
  · exact pure ()
  · refine bind get fun t => ?_
    split
    · exact pure ()
    · refine bind (changed _) fun _ => attempt_bind fun r => bind (changed _) fun _ => ?_
      rcases r with (_ | _ | _ | _) | _
      · exact lift _
      · exact lift _
      · exact fail _
      · exact fun _ _ _ _ => nofun
      · exact pure ()

theorem uncaught (e : Engine) (o : ObjectId) : NeverThrows (Exec.uncaught e o) := by
  refine bind (classOf o) fun c => bind (lift _) fun message => bind get fun t => ?_
  refine bind (lift _) fun _ => bind (runHandler e o) fun _ => bind get fun t => ?_
  exact bind (changed _) fun _ => bind (lift _) fun _ => changed _

end NeverThrows

theorem dispatch_above (he : e.Balanced) (o : ObjectId) {f b : Frame} {pre rest : Frames}
    (hf : t.frames = f :: pre ++ b :: rest) :
    (dispatch e o).Meets (.free i) t (fun r t' _ => t.Akin t' ∧
      match r with
      | .ok () => Above b rest t'.frames
      | .error trap => (∀ o, trap ≠ .throw o) ∧ t'.frames = t.frames) s := by
  unfold dispatch
  rw [meets_bind, meets_get, after_ok, hf, List.cons_append]
  dsimp only
  split
  · exact ⟨⟨rfl, rfl, rfl⟩, .more pre _⟩
  · rw [meets_bind]
    have hc : Built e .every .host [] (classOf o) := .classOf o
    refine ((hc.kin he t i s).and (NeverThrows.classOf o t i s)).mono fun r t1 s1 h1 => ?_
    cases r with
    | error trap => exact ⟨h1.1.akin, fun o ho => h1.2 o (by rw [ho]), h1.1.frames.trans hf⟩
    | ok c =>
      rw [after_ok, meets_bind]
      generalize (f.code?.map (·.handlersAt f.lastPc)).getD [] = handlers
      have hh : Built e .every .host [] (findHandler c handlers) := .findHandler c handlers
      refine ((hh.kin he t1 i s1).and (NeverThrows.findHandler c handlers t1 i s1)).mono
        fun r t2 s2 h2 => ?_
      have hk := h1.1.trans h2.1
      cases r with
      | error trap => exact ⟨hk.akin, fun o ho => h2.2 o (by rw [ho]), hk.frames.trans hf⟩
      | ok found =>
        cases found with
        | some target =>
          rw [after_ok]
          refine lift_bind_meets_free (fun _ _ => ?_) _
          rw [meets_modify]
          exact ⟨⟨hk.id, hk.uncaught, hk.fatalReported⟩, .more pre _⟩
        | none =>
          rw [after_ok, meets_bind, meets_modify, after_ok]
          cases pre with
          | nil => exact ⟨⟨hk.id, hk.uncaught, hk.fatalReported⟩, .last (.exception o)⟩
          | cons c pre => exact ⟨⟨hk.id, hk.uncaught, hk.fatalReported⟩, .more pre _⟩

theorem handleTrap_above (he : e.Balanced) (trap : Trap) {f b : Frame} {pre rest : Frames}
    (hf : t.frames = f :: pre ++ b :: rest) :
    (handleTrap e trap (rest.length + 1)).Meets (.free i) t (fun r t' _ => t.Akin t' ∧
      match r with
      | .ok () => Above b rest t'.frames
      | .error trap => trap.isCatchable = false ∧ t'.frames = t.frames) s := by
  have aborted {trap : Trap} {t' : Thread} {s : Scene} (ht : ∀ o, trap ≠ .throw o)
      (h : t.Akin t') (hf : t'.frames = t.frames) :
      (abort trap (rest.length + 1)).Meets (.free i) t' (fun r t' _ => t.Akin t' ∧
        match r with
        | .ok () => Above b rest t'.frames
        | .error trap => trap.isCatchable = false ∧ t'.frames = t.frames) s := by
    refine (abort_kin trap _ ht).mono fun r t'' s' h' => ?_
    obtain ⟨⟨trap', ht', rfl⟩, hk⟩ := h'
    exact ⟨h.trans hk.akin, ht', hk.frames.trans hf⟩
  unfold handleTrap
  rw [meets_bind, meets_attempt]
  have hh : Built e .every .host [] (handleTrap.thrown e trap) := .thrown trap
  refine ((hh.kin he t i s).and (NeverThrows.thrown e trap t i s)).mono fun r t1 s1 h1 => ?_
  cases r with
  | error other => exact aborted (fun o ho => h1.2 o (by rw [ho])) h1.1.akin h1.1.frames
  | ok o =>
    have hf1 : t1.frames = f :: pre ++ b :: rest := h1.1.frames.trans hf
    rw [after_ok, meets_bind, meets_attempt]
    refine (dispatch_above he o hf1).mono fun r t2 s2 h2 => ?_
    have hk := h1.1.akin.trans h2.1
    cases r with
    | ok _ => exact ⟨hk, h2.2⟩
    | error other => exact aborted h2.2.1 hk (h2.2.2.trans h1.1.frames)

theorem handleTrap_passes {trap : Trap} (ht : trap.isCatchable = false) (limit : Nat) :
    (handleTrap e trap (limit + 1)).Meets (.free i) t
      (fun r t' _ => (∃ trap', trap'.isCatchable = false ∧ r = .error trap') ∧ t.Kin t') s := by
  cases trap with
  | throw o => cases ht
  | raise cause => cases ht
  | fatal fault => exact abort_kin (.fatal fault) limit nofun
  | exit => exact abort_kin .exit limit nofun

-- What is above is run on, whether it is more frames or none any more.
theorem run_again (he : e.Balanced) {pre : Frames} {b : Frame} {rest : Frames} (hne : pre ≠ [])
    {t' : Thread} (ha : t.Akin t') (h : Above b rest t'.frames) :
    (e.run (rest.length + 1)).Meets (.free i) t' (fun r t2 _ => t.Akin t2 ∧
      match r with
      | .ok () => ∃ b', b.Received b' ∧ (pre = [] → b' = b) ∧ t2.frames = b' :: rest
      | .error trap => trap.isCatchable = false ∧ ∃ pre b', t2.frames = pre ++ b' :: rest) s := by
  generalize hfs : t'.frames = fs at h
  cases h with
  | more above f =>
    refine (he.run _ b rest t' i s hfs).mono fun r t2 s2 h2 => ?_
    refine ⟨ha.trans h2.1, ?_⟩
    cases r with
    | ok _ =>
      obtain ⟨b', hb, -, hf⟩ := h2.2
      exact ⟨b', hb, fun h => absurd h hne, hf⟩
    | error trap => exact h2.2
  | last hb =>
    refine (he.run [] _ rest t' i s hfs).mono fun r t2 s2 h2 => ?_
    refine ⟨ha.trans h2.1, ?_⟩
    cases r with
    | ok _ =>
      obtain ⟨b', -, hb', hf⟩ := h2.2
      exact ⟨b', (hb' rfl) ▸ hb, fun h => absurd h hne, hf⟩
    | error trap => exact h2.2

theorem run_balanced (he : e.Balanced) {pre : Frames} {b : Frame} {rest : Frames}
    (hf : t.frames = pre ++ b :: rest) :
    (run e (rest.length + 1)).Meets (.free i) t (fun r t' _ => t.Akin t' ∧
      match r with
      | .ok () => ∃ b', b.Received b' ∧ (pre = [] → b' = b) ∧ t'.frames = b' :: rest
      | .error trap => trap.isCatchable = false ∧ ∃ pre b', t'.frames = pre ++ b' :: rest) s := by
  unfold run
  rw [meets_bind, meets_get, after_ok]
  cases pre with
  | nil =>
    have hw : t.isWithin (rest.length + 1) = true := by
      rw [Thread.isWithin_iff, Thread.depth, hf]
      exact Nat.le_refl _
    rw [if_pos hw]
    exact ⟨.refl t, b, .nothing, fun _ => rfl, hf⟩
  | cons f pre =>
    split
    · rename_i hw
      rw [Thread.isWithin_iff, Thread.depth, hf] at hw
      simp only [List.length_append, List.length_cons] at hw
      omega
    · refine lift_bind_meets_free (fun _ s => ?_) _
      rw [shouldTerminate, bind_assoc, meets_bind, meets_get, after_ok]
      refine lift_bind_meets_free (fun stop s => ?_) _
      cases stop with
      | true => exact ⟨.refl t, rfl, f :: pre, b, hf⟩
      | false =>
        rw [if_neg Bool.false_ne_true, meets_bind, meets_attempt]
        refine (step_stepped he).mono fun r t' s' h => ?_
        rw [after_ok]
        cases r with
        | ok _ => exact run_again he (List.cons_ne_nil f pre) h.akin (h.above hf)
        | error trap =>
          refine lift_bind_meets_free (fun _ s => ?_) _
          rw [meets_bind]
          cases ht : trap.isCatchable with
          | false =>
            have hover : ∃ pre b', t'.frames = pre ++ b' :: rest := by
              rcases h.error hf with ⟨f', hf'⟩ | ⟨-, hf'⟩
              · exact ⟨f' :: pre, b, hf'⟩
              · exact ⟨pre, b, hf'⟩
            refine (handleTrap_passes ht rest.length).mono fun r t2 s2 h2 => ?_
            obtain ⟨⟨trap', ht', rfl⟩, hk⟩ := h2
            exact ⟨h.akin.trans hk.akin, ht', by rwa [hk.frames]⟩
          | true =>
            rcases h.error hf with ⟨f', hf'⟩ | ⟨ht', -⟩
            · refine (handleTrap_above he trap hf').mono fun r t2 s2 h2 => ?_
              have hk := h.akin.trans h2.1
              cases r with
              | ok _ => exact run_again he (List.cons_ne_nil f pre) hk h2.2
              | error trap' => exact ⟨hk, h2.2.1, f' :: pre, b, h2.2.2.trans hf'⟩
            · exact absurd ht (by rw [ht']; exact Bool.false_ne_true)

theorem setUpAll_kin (he : e.Balanced) (cs : List Class) :
    (setUpAll e cs).Meets (.free i) t (fun _ t' _ => t.Kin t') s := by
  induction cs generalizing t s with
  | nil => exact .refl t
  | cons c rest ih =>
    refine meets_bind.2 ((he.setUp c t i s).mono fun r t' s' h => ?_)
    cases r with
    | error trap => exact h
    | ok _ => exact ih.mono fun _ _ _ h' => h.trans h'

theorem runSetup_kin (he : e.Balanced) (c : Class) :
    (runSetup e c).Meets (.free i) t (fun _ t' _ => t.Kin t') s := by
  refine meets_bind.2 (((Storing.seed c.fields).effect he t i s).mono fun r t1 s1 h1 => ?_)
  cases r with
  | error trap => exact h1.kin
  | ok _ =>
    rw [after_ok, meets_bind]
    refine (setUpAll_kin he _).mono fun r t2 s2 h2 => ?_
    have h := h1.kin.trans h2
    cases r with
    | error trap => exact h
    | ok _ =>
      rw [after_ok]
      split
      · exact h
      · refine lift_bind_meets_free (fun _ s => ?_) _
        rw [meets_bind]
        refine (invokeMethod_kin he c _ []).mono fun r t3 s3 h3 => ?_
        cases r with
        | error trap => exact h.trans h3
        | ok _ => exact h.trans h3

theorem setUpOnce_kin (he : e.Balanced) (c : Class) :
    (setUpOnce e c).Meets (.free i) t (fun _ t' _ => t.Kin t') s := by
  have finish (outcome : Except Trap Unit) (t' : Thread) (s : Scene) (h : t.Kin t') :
      (do
        update (·.setInitState c.name .initialized)
        note (.initialized c.name)
        ofTrap outcome : Exec Unit).Meets (.free i) t' (fun _ t' _ => t.Kin t') s := by
    refine lift_bind_meets_free (fun _ s => ?_) _
    refine lift_bind_meets_free (fun _ s => ?_) _
    rw [meets_ofTrap]
    exact h
  unfold setUpOnce
  refine lift_bind_meets_free (fun _ s => ?_) _
  refine lift_bind_meets_free (fun _ s => ?_) _
  rw [meets_bind, meets_attempt]
  refine (runSetup_kin he c).mono fun r t' s' h => ?_
  rw [after_ok]
  dsimp only
  split
  · exact lift_bind_meets_free (fun _ s => finish r t' s h) _
  · exact finish r t' s' h

theorem setUp_kin (he : e.Balanced) (c : Class) :
    (setUp e c).Meets (.free i) t (fun _ t' _ => t.Kin t') s := by
  unfold setUp ending
  rw [meets_bind, meets_attempt]
  have body : (do
      if (← read (·.initState c.name)) ≠ .initialized then
        locked do
          if (← read (·.initState c.name)) = .uninitialized then
            setUpOnce e c : Exec Unit).Meets (.free i) t (fun _ t' _ => t.Kin t') s := by
    refine lift_bind_meets_free (fun state s => ?_) _
    split
    · refine meets_locked.2 (Prog.meets_free (fun _ s => ?_) _ s)
      refine lift_bind_meets_free (fun state s => ?_) _
      split
      · refine (setUpOnce_kin he c).mono fun r t' s h => Prog.meets_free (fun _ s => ?_) _ s
        exact h
      · exact Prog.meets_free (fun _ s => Thread.Kin.refl t) _ s
    · exact .refl t
  refine body.mono fun r t' s' h => ?_
  rw [after_ok]
  refine lift_bind_meets_free (fun _ s => ?_) _
  rw [meets_ofTrap]
  exact h

theorem callNative_kin (he : e.Balanced) (m : Method) (arguments : List Value) :
    (callNative e m arguments).Meets (.free i) t (fun _ t' _ => t.Kin t') s := by
  have hb : Built e .every .host [] (callNative e m arguments) := .callNative m arguments
  exact hb.kin he t i s

end Exec

namespace Engine

open Frames

theorem balanced_bounded (bound : Nat) : (bounded bound).Balanced := by
  induction bound with
  | zero =>
    constructor
    · exact fun _ _ _ _ => trivial
    · exact fun _ _ _ _ _ => trivial
    · exact fun _ _ _ _ _ _ _ => trivial
  | succ bound ih =>
    constructor
    · exact fun c _ _ _ => Exec.setUp_kin ih c
    · exact fun m arguments _ _ _ => Exec.callNative_kin ih m arguments
    · exact fun _ _ _ _ _ _ hf => Exec.run_balanced ih hf

theorem calls_balanced (bound : Nat) (t : Thread) (s : Scene) :
    (∀ c m arguments, (Exec.invokeMethod (bounded bound) c m arguments).Meets (.free t.id) t
      (fun _ t' _ => t'.frames = t.frames) s) ∧
    ∀ limit, 1 ≤ limit → limit < t.depth →
      ((bounded bound).run limit).Meets (.free t.id) t
        (fun r t' _ => r = .ok () → HandedBack limit t.frames t'.frames) s := by
  have he := balanced_bounded bound
  refine ⟨fun c m arguments => ?_, ?_⟩
  · exact (Exec.invokeMethod_kin he c m arguments).mono fun _ _ _ h => h.frames
  · intro limit h1 h2
    obtain ⟨pre, b, rest, hf, rfl, hd⟩ := exists_append_of_lt h1 h2
    refine (he.run pre b rest t t.id s hf).mono fun r t' s' h hr => ?_
    subst hr
    obtain ⟨-, b', hb, -, hf'⟩ := h
    rw [hf']
    refine ⟨rfl, ?_, b, b', ?_, rfl, hb⟩
    · rw [hd]
      rfl
    · rw [hd]
      rfl

def returning : Method := ⟨.object, ⟨"m"⟩, .void [], ⟨Flag.isStatic⟩, some (.plain 0 [.returnVoid])⟩

def returningFrame : Frame :=
  { Frame.blank with
    activation := some ⟨Class.start .object none [] none .plain .regular, returning⟩ }

theorem calls_balanced_over_host_call :
    let t := { Thread.start 1 "main" with frames := [returningFrame, .blank] }
    let s : Scene := ⟨.create [] .standard .standard .sound .sound (.ofVerbosity none), []⟩
    (1 ≤ 1 ∧ 1 < t.depth) ∧ ((bounded 5).run 1).Meets (.free 1) t
      (fun r t' _ => r = .ok () → HandedBack 1 [returningFrame, .blank] t'.frames) s := by
  intro t s
  exact ⟨by decide, (calls_balanced 5 t s).2 1 (by decide) (by decide)⟩

end Engine

end BytecodeMachine
