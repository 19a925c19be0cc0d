import BytecodeMachine.Proofs.Setup.Core
import BytecodeMachine.Proofs.Setup.Passage

namespace BytecodeMachine

variable {α β : Type}

open InitState

namespace Scene

variable {i : Nat} {hole out : Option ClassName} {s s1 s2 : Scene}

-- The setup of a superclass has begun wherever that of the class below is under way, but for one.
def Near (i : Nat) (hole : Option ClassName) (s : Scene) : Prop :=
  s.owner = some i → s.Spared → ∀ n c, s.found n = some c → s.state n = initializing →
    ∀ d, c.superclass = some d → s.state d.name ≠ uninitialized ∨ some d.name = hole

theorem Near.weaken (h : s.Near i none) (hole : Option ClassName) : s.Near i hole :=
  fun ho hsp n c hc hn d hd => .inl ((h ho hsp n c hc hn d hd).resolve_right nofun)

theorem Near.visit (h : s1.Near i hole) (hs : s1.Coherent) (hv : s1.Visit i out s2) :
    s2.Near i hole := by
  intro ho hsp n c hc hn d hd
  have ho1 : s1.owner = some i := by
    by_contra hne
    exact hv.free hne ho
  have hn1 := (hv.busy ho1 n).1 hn
  have hc1 := found_of_grows hs hv.grows (by rw [hn1]; exact nofun) hc
  exact (h ho1 (hv.spared hsp) n c hc1 hn1 d hd).imp_left (hv.started d.name)

theorem Near.held (h : s1.Near i hole) (hs : s1.Coherent) (hh : s1.Held i s2) : s2.Near i hole := by
  intro ho hsp n c hc hn d hd
  by_cases ho1 : s1.owner = some i
  · rw [hh.again ho1] at hn ⊢
    have hc1 := found_of_grows hs hh.grows (by rw [hn]; exact nofun) hc
    exact h ho1 (hh.spared hsp) n c hc1 hn d hd
  · exact absurd hn (hh.fresh ho1 n)

structure Admits (z : Exec.Realm) (known : Exec.Known) (i : Nat) (s : Scene) : Prop where
  coherent : s.Coherent
  known : ∀ e ∈ known, s.found e.1 = some e.2
  near : z = .every → s.Near i none

theorem Coherent.admits (hs : s.Coherent) (i : Nat) : s.Admits .core [] i :=
  ⟨hs, nofun, nofun⟩

theorem Admits.passage {z : Exec.Realm} {known : Exec.Known} (h : s1.Admits z known i)
    (hp : s1.Passage i s2) : s2.Admits z known i where
  coherent := hp.coherent
  known e he := hp.visit.grows _ _ (h.known e he)
  near hz := (h.near hz).visit h.coherent hp.visit

theorem Admits.held {z : Exec.Realm} {known : Exec.Known} (h : s1.Admits z known i)
    (hh : s1.Held i s2) : s2.Admits z known i where
  coherent := hh.coherent
  known e he := hh.grows _ _ (h.known e he)
  near hz := (h.near hz).held h.coherent hh

theorem Admits.add {z : Exec.Realm} {known : Exec.Known} (h : s.Admits z known i)
    {n : ClassName} {c : Class} (hc : s.found n = some c) : s.Admits z ((n, c) :: known) i where
  coherent := h.coherent
  known := List.forall_mem_cons.2 ⟨hc, h.known⟩
  near := h.near

end Scene

namespace Exec

def Settles (i : Nat) (s : Scene) : Post α := fun _ t' s' => t'.id = i ∧ s.Passage i s'

def Settling (z : Realm) (known : Known) (x : Exec α) : Prop :=
  ∀ (i : Nat) (t : Thread) (s : Scene), t.id = i → s.Admits z known i →
    x.Meets (.setup i) t (Settles i s) s

namespace Settling

variable {z : Realm} {known : Known}

theorem pure (a : α) : Settling z known (Pure.pure a) := fun _ _ _ ht hs => ⟨ht, .refl _ hs.coherent⟩

theorem throw (trap : Trap) : Settling z known (MonadExcept.throw trap : Exec α) :=
  fun _ _ _ ht hs => ⟨ht, .refl _ hs.coherent⟩

theorem raise (cause : Cause) : Settling z known (Exec.raise cause : Exec α) := throw _

theorem fail (fault : Fault) : Settling z known (Exec.fail fault : Exec α) := throw _

theorem get : Settling z known (MonadState.get : Exec Thread) :=
  fun _ _ _ ht hs => ⟨ht, .refl _ hs.coherent⟩

theorem modify {f : Thread → Thread} (h : ∀ t, (f t).id = t.id) :
    Settling z known (modify f : Exec PUnit) :=
  fun _ t _ ht hs => ⟨(h t).trans ht, .refl _ hs.coherent⟩

theorem bind {x : Exec α} {f : α → Exec β} (hx : Settling z known x)
    (hf : ∀ a, Settling z known (f a)) : Settling z known (x >>= f) := by
  intro i t s ht hs
  refine meets_bind.2 ((hx i t s ht hs).mono fun r t1 s1 h => ?_)
  cases r with
  | error trap => exact h
  | ok a =>
    refine (hf a i t1 s1 h.1 (hs.passage h.2)).mono fun _ _ _ h' => ?_
    exact ⟨h'.1, h.2.trans h'.2⟩

theorem attempt_bind {x : Exec α} {f : Except Trap α → Exec β} (hx : Settling z known x)
    (hf : ∀ r, Settling z known (f r)) : Settling z known (attempt x >>= f) := by
  intro i t s ht hs
  refine meets_bind.2 (meets_attempt.2 ((hx i t s ht hs).mono fun r t1 s1 h => ?_))
  refine (hf r i t1 s1 h.1 (hs.passage h.2)).mono fun _ _ _ h' => ?_
  exact ⟨h'.1, h.2.trans h'.2⟩

theorem lift {p : Prog α} (hp : p.IsNeutral) : Settling z known (Exec.lift p) :=
  fun _ _ _ ht hs => lift_neutral hp hs.coherent fun _ _ hc hr => ⟨ht, hr.passage hc⟩

theorem inFrame (action : FrameM α) : Settling z known (Exec.inFrame action) := by
  intro i t s ht hs
  cases hf : t.frames with
  | nil => exact (meets_inFrame_nil hf).2 ⟨ht, .refl _ hs.coherent⟩
  | cons f rest => exact (meets_inFrame_cons hf).2 ⟨ht, .refl _ hs.coherent⟩

theorem resolve_bind {res : List Library → Resolving α} {entry : α → ClassName × Class}
    {f : α → Exec β} (h : Resolving.Finds res entry)
    (hf : ∀ a, Settling z (entry a :: known) (f a)) : Settling z known (resolve res >>= f) := by
  intro i t s ht hs
  refine meets_bind.2 (resolve_within h hs.coherent (fun a s1 hc hr hfound => ?_) ?_)
  · have hp := hr.passage hc
    refine (hf a i t s1 ht ((hs.passage hp).add hfound)).mono fun _ _ _ h' => ?_
    exact ⟨h'.1, hp.trans h'.2⟩
  · exact fun _ _ hc hr => ⟨ht, hr.passage hc⟩

theorem locked {x : Exec α} (hx : Settling z known x) : Settling z known (Exec.locked x) := by
  rintro i t s rfl hs
  refine locked_within hs.coherent fun s1 hh => ?_
  refine (hx _ t s1 rfl (hs.held hh)).mono fun r t' s2 h => ?_
  exact ⟨h.2, fun s3 h3 _ => ⟨h.1, h3⟩⟩

end Settling

end Exec

end BytecodeMachine
