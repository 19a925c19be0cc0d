import BytecodeMachine.Proofs.Construction.Host
import BytecodeMachine.Proofs.Frames
import BytecodeMachine.Proofs.Setup.Settling

namespace BytecodeMachine

variable {α β : Type}

open InitState

def Frame.IsCore (f : Frame) : Prop :=
  ∃ a, f.activation = some a ∧ CoreLibrary.IsConstructor a.method

namespace Frames

variable {limit : Nat} {fs fs' rest : Frames} {c c' : Frame}

inductive Cores (limit : Nat) : Frames → Prop
  | base {rest : Frames} (h : rest.length = limit) : Cores limit rest
  | core {f : Frame} {rest : Frames} (hf : f.IsCore) (h : Cores limit rest) : Cores limit (f :: rest)

inductive Underway (limit : Nat) : Frames → Prop
  | core {f : Frame} {rest : Frames} (hf : f.IsCore) (h : Cores limit rest) :
      Underway limit (f :: rest)

theorem Underway.cores (h : Underway limit fs) : Cores limit fs := by
  cases h with
  | core hf h => exact .core hf h

theorem Cores.underway (h : Cores limit fs) (hl : limit < fs.length) : Underway limit fs := by
  cases h with
  | base h => omega
  | core hf h => exact .core hf h

theorem Cores.le_length (h : Cores limit fs) : limit ≤ fs.length := by
  induction h with
  | base h => omega
  | core _ _ ih =>
    rw [List.length_cons]
    omega

theorem Cores.change (h : Cores limit (c :: rest)) (hc : c'.activation = c.activation) :
    Cores limit (c' :: rest) := by
  cases h with
  | base h => exact .base h
  | core hf h =>
    obtain ⟨a, ha, hm⟩ := hf
    exact .core ⟨a, hc.trans ha, hm⟩ h

theorem Underway.onStack (h : Underway limit fs) (ho : OnStack fs fs') : Underway limit fs' := by
  cases ho with
  | refl => exact h
  | stack f stack rest =>
    cases h with
    | core hf h => exact .core hf h

end Frames

namespace Engine

open Exec

structure Settled (e : Engine) : Prop where
  setUp : ∀ (z : Realm) (c : Class) (i : Nat) (t : Thread) (s : Scene), t.id = i → s.Coherent →
    s.found c.name = some c → z.SetsUp c.name → (z = .every → s.Near i (some c.name)) →
    (e.setUp c).Meets (.setup i) t (fun r t' s' =>
      Settles i s r t' s' ∧ s'.Left i c.name) s
  native : ∀ m arguments, Settling .every [] (e.native m arguments)
  run : ∀ limit, Settling .every [] (e.run limit)
  construct : ∀ (limit i : Nat) (t : Thread) (s : Scene), t.id = i → s.Coherent →
    Frames.Cores (limit + 1) t.frames → (e.run (limit + 1)).Meets (.setup i) t (Settles i s) s

end Engine

namespace Exec

open Frames

variable {e : Engine} {z : Realm} {known : Known} {i limit : Nat} {t : Thread} {s : Scene}

theorem Settling.of_nil {x : Exec α} (h : Settling z [] x) : Settling z known x :=
  fun i t s ht hs => h i t s ht ⟨hs.coherent, nofun, hs.near⟩

theorem enterFrame_settles (c : Class) (m : Method) (arguments : List Value) (ht : t.id = i)
    (hs : s.Coherent) :
    (enterFrame c m arguments).Meets (.setup i) t (fun r t' s' => Settles i s r t' s' ∧
      match r with
      | .ok _ => ∃ f, f.activation = some ⟨c, m⟩ ∧ t'.frames = f :: t.frames
      | .error _ => t'.frames = t.frames) s := by
  have next {s1 : Scene} (hp : s.Passage i s1) : (do
      let f ← ofExcept (Frame.enter c m arguments)
      modify (·.push f) : Exec Unit).Meets (.setup i) t (fun r t' s' => Settles i s r t' s' ∧
        match r with
        | .ok _ => ∃ f, f.activation = some ⟨c, m⟩ ∧ t'.frames = f :: t.frames
        | .error _ => t'.frames = t.frames) s1 := by
    cases hf : Frame.enter c m arguments with
    | error fault => exact ⟨⟨ht, hp⟩, rfl⟩
    | ok f => exact ⟨⟨ht, hp⟩, f, Frame.activation_of_enter hf, rfl⟩
  refine read_within hs fun s1 hs1 hr1 => ?_
  split
  · rw [meets_bind, meets_get, after_ok]
    refine lift_bind_neutral (Prog.isNeutral_pass rfl) hs1 fun _ s2 hs2 hr2 => ?_
    exact next ((hr1.trans hr2).passage hs2)
  · exact next (hr1.passage hs1)

theorem settling_enterMethod (he : e.Settled) (c : Class) (m : Method) (arguments : List Value) :
    Settling .every known (enterMethod e c m arguments) := by
  unfold enterMethod
  split
  · refine .bind (he.native m arguments).of_nil fun v => ?_
    cases v with
    | none => exact .pure ()
    | some v => exact .inFrame _
  · split
    · exact .raise _
    · intro i t s ht hs
      exact (enterFrame_settles c m arguments ht hs.coherent).mono fun _ _ _ h => h.1

theorem enterMethod_constructor {m : Method} (hm : CoreLibrary.IsConstructor m) (c : Class)
    (arguments : List Value) (ht : t.id = i) (hs : s.Coherent) (hf : Cores limit t.frames) :
    (enterMethod e c m arguments).Meets (.setup i) t (fun r t' s' => Settles i s r t' s' ∧
      match r with
      | .ok _ => Cores limit t'.frames
      | .error _ => t'.frames = t.frames) s := by
  have hnative := hm.2.1
  unfold enterMethod
  rw [if_neg (by rw [hnative]; exact Bool.false_ne_true)]
  split
  · exact ⟨⟨ht, .refl i hs⟩, rfl⟩
  · refine (enterFrame_settles c m arguments ht hs).mono fun r t' s' h => ⟨h.1, ?_⟩
    cases r with
    | error trap => exact h.2
    | ok _ =>
      obtain ⟨f, ha, hf'⟩ := h.2
      dsimp only
      rw [hf']
      exact .core ⟨_, ha, hm⟩ hf

theorem settling_takeResult : Settling z known takeResult := by
  refine .bind .get fun t => ?_
  split
  · exact .fail _
  · refine .bind (.modify fun _ => rfl) fun _ => ?_
    split
    · exact .throw _
    · exact .pure _

theorem settling_invokeMethod {c : Class} {m : Method} {arguments : List Value}
    (body : ∀ (i : Nat) (t : Thread) (s : Scene), t.id = i → s.Admits z known i →
      (do
        enterMethod e c m arguments
        e.run (t.depth + 1) : Exec Unit).Meets (.setup i) (t.push .blank) (Settles i s) s) :
    Settling z known (invokeMethod e c m arguments) := by
  refine .bind (.lift (Prog.isNeutral_pass rfl)) fun _ => ?_
  intro i t s ht hs
  rw [meets_bind, meets_get, after_ok, meets_bind, meets_modify, after_ok, meets_bind,
    meets_attempt]
  refine (body i t s ht hs).mono fun r t1 s1 h => ?_
  have after {x : Exec (Option Value)} (hx : Settling z known x) :
      x.Meets (.setup i) t1 (Settles i s) s1 :=
    (hx i t1 s1 h.1 (hs.passage h.2)).mono fun _ _ _ h' => ⟨h'.1, h.2.trans h'.2⟩
  rw [after_ok]
  cases r with
  | ok _ => exact after settling_takeResult
  | error trap => exact after (.bind (.modify fun _ => rfl) fun _ => .throw trap)

theorem settling_call (he : e.Settled) (c : Class) (m : Method) (arguments : List Value) :
    Settling .every known (invokeMethod e c m arguments) := by
  refine settling_invokeMethod fun i t s ht hs => ?_
  have hb : Settling .every known (do
      enterMethod e c m arguments
      e.run (t.depth + 1) : Exec Unit) :=
    .bind (settling_enterMethod he c m arguments) fun _ => (he.run _).of_nil
  exact hb i (t.push .blank) s ht hs

theorem settling_construct (he : e.Settled) {m : Method} (hm : CoreLibrary.IsConstructor m)
    (c : Class) (arguments : List Value) : Settling z known (invokeMethod e c m arguments) := by
  refine settling_invokeMethod fun i t s ht hs => meets_bind.2 ?_
  have hf : Cores (t.depth + 1) (t.push .blank).frames := .base rfl
  refine (enterMethod_constructor (t := t.push .blank) hm c arguments ht hs.coherent hf).mono fun r t1 s1 h => ?_
  cases r with
  | error trap => exact h.1
  | ok _ =>
    refine (he.construct t.depth i t1 s1 h.1.1 h.1.2.coherent h.2).mono fun _ _ _ h' => ?_
    exact ⟨h'.1, h.1.2.trans h'.2⟩

theorem settling_deliver (v : Option Value) (frames : Frames) :
    Settling z known (match v, frames with
      | some v, _ :: _ => push v
      | _, _ => Pure.pure () : Exec Unit) := by
  split
  · exact .inFrame _
  · exact .pure ()

theorem settling_returnFrom (hasValue : Bool) : Settling z known (returnFrom hasValue) := by
  refine .bind .get fun t => ?_
  rcases t.frames with _ | ⟨f, rest⟩
  · exact .fail _
  · refine .bind (.modify fun _ => rfl) fun _ => ?_
    dsimp only
    generalize (if hasValue = true then f.stack.head? else none) = v
    split
    · exact .fail _
    · split
      · split
        · exact .fail _
        · exact settling_deliver v rest
      · exact settling_deliver v rest

theorem Built.settling (he : e.Settled) {r : Reach} {x : Exec α} (h : Built e z r known x) :
    Settling z known x := by
  induction h with
  | pure a => exact .pure a
  | throw trap => exact .throw trap
  | bind _ _ ihx ihf => exact .bind ihx ihf
  | get => exact .get
  | modify h => exact .modify fun t => (h t).id
  | lift h => exact .lift h.isNeutral
  | enroll n hc =>
    refine .bind (.lift (Prog.isMild_act fun m => Machine.mild_alloc _ _ m).isNeutral) fun o => ?_
    exact .lift ⟨fun m => (Machine.spares_enroll n o m).loads, fun _ => trivial⟩
  | keep c text _ ih =>
    refine .bind (.lift (Prog.isMild_act fun m => Machine.mild_alloc _ _ m).isNeutral) fun o => ?_
    refine .bind (ih o) fun _ => ?_
    exact .lift ⟨fun m => (Machine.spares_keep text o m).loads, fun _ => trivial⟩
  | report index code =>
    refine .bind .get fun t => ?_
    exact .lift ⟨fun m => (Machine.spares_setError t.id index code m).loads, fun _ => trivial⟩
  | looking h => exact .lift ⟨Machine.loads_resolve h, fun _ => trivial⟩
  | resolving h _ ihf => exact .resolve_bind h ihf
  | locked _ ih => exact .locked ih
  | @setUp _ known n c hc hz =>
    intro i t s ht hs
    have hfound : s.found n = some c := hs.known _ hc
    obtain rfl : c.name = n := hs.coherent.closed.name hfound
    have hnear (hz : z = .every) := (hs.near hz).weaken (some c.name)
    exact (he.setUp z _ i t s ht hs.coherent hfound hz hnear).mono fun _ _ _ h => h.1
  | @invoke _ known c m arguments ho hz =>
    cases z with
    | every => exact settling_call he c m arguments
    | core =>
      obtain ⟨n, hc, hn, hm, hname⟩ := hz rfl
      intro i t s ht hs
      obtain ⟨rest, hl⟩ := hs.coherent.libraries
      have hclosed := hs.coherent.closed
      rw [hl] at hclosed
      have hm' := CoreLibrary.isConstructor_of_mem hclosed (hs.known _ hc) hn hm hname
      exact settling_construct he hm' c arguments i t s ht hs
  | recover _ ok caught passed ihx ihok ihcaught =>
    refine .attempt_bind ihx fun r => ?_
    cases r with
    | ok a => exact ihok a
    | error trap =>
      cases ht : trap.isCatchable with
      | true => exact ihcaught trap ht
      | false =>
        obtain ⟨g, hg, hf⟩ := passed trap ht
        rw [hf]
        exact .bind (.modify fun t => (hg t).id) fun _ => .throw trap
  | frame action ha => exact .inFrame action
  | enter arguments ho hz =>
    subst hz
    exact settling_enterMethod he _ _ arguments
  | leave hasValue => exact settling_returnFrom hasValue

theorem settling_exitAllFrames : Settling z known exitAllFrames := by
  intro i t s ht hs
  unfold exitAllFrames
  rw [meets_bind, meets_get, after_ok]
  refine lift_bind_neutral (Prog.isNeutral_pass rfl) hs.coherent fun _ s' hc hr => ?_
  exact meets_set.2 ⟨ht, hr.passage hc⟩

theorem settling_reportFatal (he : e.Settled) (fault : Fault) : Settling z known (reportFatal fault) := by
  have last : Settling z known (do
      exitAllFrames
      lift (.exit 1) : Exec Unit) :=
    .bind settling_exitAllFrames fun _ => .lift (Prog.isMild_exit 1).isNeutral
  have write (headline : String) (frames : List String) :
      Settling z known (writeReport headline frames) := by
    have hb : Built e z .host known (writeReport headline frames) := .writeReport headline frames
    exact hb.settling he
  intro i t s ht hs
  unfold reportFatal
  rw [meets_bind, meets_get, after_ok]
  split
  · exact ⟨ht, .refl i hs.coherent⟩
  · refine lift_bind_neutral (Prog.isNeutral_pass rfl) hs.coherent fun _ s1 hc hr => ?_
    have hp := hr.passage hc
    rw [meets_bind, meets_set, after_ok]
    let reported : Thread := { t with fatalReported := true, fatalTrace := none }
    refine ((write _ _).bind (fun _ => last) i reported s1 ht (hs.passage hp)).mono fun _ _ _ h => ?_
    exact ⟨h.1, hp.trans h.2⟩

theorem settling_abort (he : e.Settled) (trap : Trap) (limit : Nat) : Settling z known (abort trap limit) := by
  have fatal (fault : Fault) : Settling z known (abort.abortFatal limit fault) := by
    refine .bind (.modify fun _ => rfl) fun _ => ?_
    dsimp only
    split
    · exact .bind (settling_reportFatal he fault) fun _ => .throw _
    · exact .throw _
  cases trap with
  | throw o => exact .throw _
  | raise cause => exact fatal _
  | fatal fault => exact fatal fault
  | exit =>
    unfold abort
    dsimp only
    split
    · exact .bind settling_exitAllFrames fun _ => .throw _
    · exact .throw _

end Exec

end BytecodeMachine
