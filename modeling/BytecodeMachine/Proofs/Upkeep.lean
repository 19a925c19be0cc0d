import BytecodeMachine.Proofs.Callers
import BytecodeMachine.Proofs.Identities.Inquiries
import BytecodeMachine.Proofs.Loading.CoreClasses

namespace BytecodeMachine

variable {κ α : Type} {R : Machine → Machine → Prop}

structure Upkept (R : Machine → Machine → Prop) : Prop where
  leaves : ∀ {m m' : Machine}, m.Leaves m' → R m m'
  trans : ∀ {m1 m2 m3 : Machine}, R m1 m2 → R m2 m3 → R m1 m3
  libraries : ∀ {m m' : Machine}, R m m' → m'.libraries = m.libraries
  loaded : ∀ {m m' : Machine}, R m m' → ClassTable.Loaded m.libraries m.classes m'.classes
  enroll : ∀ {m : Machine} {n : ClassName} {c : Class}, ClassTable.Loads m.libraries n c →
    ∀ o, R m (m.enroll n o).2
  keep : ∀ text o m, R m (m.keep text o).2
  report : ∀ thread index code m, R m (m.setError thread index code).2

theorem Upkept.refl (hR : Upkept R) (m : Machine) : R m m := hR.leaves (.refl m)

def Contract.along (R : Machine → Machine → Prop) (i : Nat) : Contract where
  thread := i
  rely s s' := R s.machine s'.machine
  guarantee s s' := R s.machine s'.machine

theorem Contract.family_along (hR : Upkept R) : Family (along R) where
  thread _ := rfl
  refl _ s := hR.refl s.machine
  trans _ _ _ _ h h' := hR.trans h h'
  compatible _ _ _ _ _ h := h

theorem Prog.IsMild.meets_along (hR : Upkept R) {i : Nat} {s : Scene} {p : Prog α}
    {Q : α → Scene → Prop} (hp : p.IsMild) (hq : ∀ a s', R s.machine s'.machine → Q a s') :
    p.Meets (.along R i) Q s := by
  induction p generalizing s with
  | done a => exact hq a s (hR.refl _)
  | step f next ih =>
    intro s' hs
    have hf := hR.leaves (hp.1 s'.machine).toLeaves
    exact ⟨hf, ih _ (hp.2 _) fun a s2 h2 => hq a s2 (hR.trans (hR.trans hs hf) h2)⟩
  | sign x next ih =>
    intro s' hs
    have hf := hR.leaves (Machine.leaves_pass x s'.machine)
    exact ⟨hf, ih hp.2 fun a s2 h2 => hq a s2 (hR.trans (hR.trans hs hf) h2)⟩
  | wait b next ih =>
    intro s' w m hs ha
    have hf := hR.leaves (Blocker.mild_attempt hp.1 ha).toLeaves
    exact ⟨hf, ih w (hp.2 w) fun a s2 h2 => hq a s2 (hR.trans (hR.trans hs hf) h2)⟩
  | starved => trivial

theorem Prog.Meets.since (hR : Upkept R) {i : Nat} {s : Scene} {p : Prog α} {Q : α → Scene → Prop}
    (h : p.Meets (.along R i) Q s) :
    p.Meets (.along R i) (fun a s' => Q a s' ∧ R s.machine s'.machine) s := by
  induction p generalizing s with
  | done a => exact ⟨h, hR.refl _⟩
  | step f next ih =>
    intro s1 h1
    obtain ⟨hf, hn⟩ := h s1 h1
    exact ⟨hf, (ih _ hn).mono fun a s2 h2 => ⟨h2.1, hR.trans (hR.trans h1 hf) h2.2⟩⟩
  | sign x next ih =>
    intro s1 h1
    obtain ⟨hf, hn⟩ := h s1 h1
    exact ⟨hf, (ih hn).mono fun a s2 h2 => ⟨h2.1, hR.trans (hR.trans h1 hf) h2.2⟩⟩
  | wait b next ih =>
    intro s1 w m h1 ha
    obtain ⟨hf, hn⟩ := h s1 w m h1 ha
    exact ⟨hf, (ih w hn).mono fun a s2 h2 => ⟨h2.1, hR.trans (hR.trans h1 hf) h2.2⟩⟩
  | starved => trivial

namespace Exec

variable {libraries : List Library} {i : Nat} {t : Thread} {s s' : Scene} {x : Exec α}

theorem Meets.since (hR : Upkept R) {Q : Post α} (h : x.Meets (.along R i) t Q s) :
    x.Meets (.along R i) t (fun r t' s' => Q r t' s' ∧ R s.machine s'.machine) s :=
  Prog.Meets.since hR h

def Over (libraries : List Library) (i : Nat) (t : Thread) (s : Scene) : Prop :=
  t.id = i ∧ s.machine.libraries = libraries ∧ ClassTable.Closed libraries s.machine.classes

theorem Over.along (hR : Upkept R) (h : Over libraries i t s) (he : R s.machine s'.machine) :
    Over libraries i t s' := by
  refine ⟨h.1, (hR.libraries he).trans h.2.1, ?_⟩
  have hl := hR.loaded he
  rw [h.2.1] at hl
  exact hl.closed h.2.2

theorem meets_act_over (hR : Upkept R) {f : Machine → α × Machine} {Q : α → Prop}
    (hs : Over libraries i t s) (h : ∀ m : Machine, m.libraries = libraries →
      ClassTable.Closed libraries m.classes → R m (f m).2 ∧ Q (f m).1) :
    (Exec.act f).Meets (.along R i) t
      (fun r t' s' => Over libraries i t' s' ∧ ∃ a, r = .ok a ∧ Q a) s := by
  refine meets_lift.2 fun s1 h1 => ?_
  have hs1 := hs.along hR h1
  obtain ⟨hf, hq⟩ := h s1.machine hs1.2.1 hs1.2.2
  exact ⟨hf, hs1.along hR hf, _, rfl, hq⟩

theorem meets_act_along (hR : Upkept R) {f : Machine → α × Machine} (hs : Over libraries i t s)
    (h : ∀ m : Machine, m.libraries = libraries → R m (f m).2) :
    (Exec.act f).Meets (.along R i) t (fun _ t' s' => Over libraries i t' s') s :=
  (meets_act_over (Q := fun _ => True) hR hs fun m hm _ => ⟨h m hm, trivial⟩).mono
    fun _ _ _ h' => h'.1

theorem meets_newObject_bind (hR : Upkept R) {c : Class} {f : ObjectId → Exec α} {Q : Post α}
    (hs : Over libraries i t s)
    (hf : ∀ o s', Over libraries i t s' → (f o).Meets (.along R i) t Q s') :
    (newObject c >>= f).Meets (.along R i) t Q s := by
  refine meets_bind.2 (meets_lift.2 fun s1 h1 => ?_)
  have hp := hR.leaves (Machine.leaves_alloc (.instanceOf c) (headerBytes + 8 * c.layout.length)
    s1.machine)
  exact ⟨hp, hf _ _ (hs.along hR (hR.trans h1 hp))⟩

theorem Woven.meets_along (hR : Upkept R)
    (h : x.Woven (fun n => ∃ c, ClassTable.Loads libraries n c) i) (hs : Over libraries i t s) :
    x.Meets (.along R i) t (fun _ t' s' => Over libraries i t' s') s := by
  induction h generalizing t s with
  | pure a => exact hs
  | throw trap => exact hs
  | bind _ _ ihx ihf =>
    refine meets_bind.2 ((ihx hs).mono fun r t' s' h' => ?_)
    cases r with
    | ok a => exact ihf a h'
    | error trap => exact h'
  | get _ ih => exact meets_bind.2 (ih t hs.1 hs)
  | modify h => exact ⟨(h t).trans hs.1, hs.2⟩
  | set h => exact ⟨h, hs.2⟩
  | attempt _ ih => exact meets_attempt.2 (ih hs)
  | pass x =>
    intro s1 h1
    have hp : R s1.machine (s1.pass i x).machine := hR.leaves (Machine.leaves_pass x s1.machine)
    exact ⟨hp, hs.along hR (hR.trans h1 hp)⟩
  | await b =>
    intro s1 w m h1 ha
    have hp := hR.leaves (Blocker.leaves_attempt ha)
    exact ⟨hp, hs.along hR (hR.trans h1 hp)⟩
  | lift h => exact meets_lift.2 (h.meets_along hR fun _ _ h' => hs.along hR h')
  | act h => exact meets_act_along hR hs fun m _ => hR.leaves (h m)
  | @resolve _ _ res entry f h _ ih =>
    have hact : (Exec.act (·.resolve res)).Meets (.along R i) t
        (fun r t' s' => Over libraries i t' s' ∧ ∃ a, r = .ok a ∧ ∀ b, a = .ok b →
          (entry b).2.name = (entry b).1 ∧ ∃ c, ClassTable.Loads libraries (entry b).1 c) s := by
      refine meets_act_over hR hs fun m hl hc => ⟨hR.leaves (Machine.leaves_resolve h m), ?_⟩
      intro b hb
      have hk := h m.libraries m.classes
      rw [hl] at hk
      have hget := hk.2 b (by rw [← hl]; exact hb)
      have hclosed := hk.1.closed hc
      exact ⟨hclosed.name hget, _, ClassTable.loads_of_get? hclosed hget⟩
    rw [Exec.resolve, bind_assoc]
    refine meets_bind.2 (hact.mono fun r t' s' h' => ?_)
    obtain ⟨hs', a, rfl, ha⟩ := h'
    cases a with
    | error e => exact hs'
    | ok b => exact ih b (ha b rfl).1 (ha b rfl).2 hs'
  | @enroll c n _ hn =>
    obtain ⟨k, hk⟩ := hn
    refine meets_newObject_bind hR hs fun o s' hs' => ?_
    exact meets_act_along hR hs' fun m hl => hR.enroll (hl ▸ hk) o
  | keep c text _ ih =>
    refine meets_newObject_bind hR hs fun o s' hs' =>
      meets_bind.2 ((ih o hs').mono fun r t2 s2 h2 => ?_)
    cases r with
    | error trap => exact h2
    | ok a => exact meets_act_along hR h2 fun m _ => hR.keep text o m
  | report index code => exact meets_act_along hR hs fun m _ => hR.report i index code m

end Exec

namespace Callers

variable {c c' : Callers κ α} {s s' : Scene} {Q : κ → Except Trap α → Machine → Prop}
  {serve : κ → Exec α} {outside : Machine → Machine → Prop}

structure Along (R : Machine → Machine → Prop) (Q : κ → Except Trap α → Machine → Prop)
    (c : Callers κ α) (s : Scene) : Prop where
  pending : ∀ i p, c.pending i = some p →
    p.rest.Meets (.along R i) (fun r s => Q p.call r.1 s.machine) s
  replies : ∀ r ∈ c.replies, Q r.call r.outcome s.machine

theorem along_idle : idle.Along R Q s where
  pending i p hp := by cases hp
  replies r hr := by cases hr

namespace Along

variable (hR : Upkept R) (hq : ∀ k r m m', R m m' → Q k r m → Q k r m')

include hR hq

theorem stable (h : c.Along R Q s) (hs : R s.machine s'.machine) : c.Along R Q s' where
  pending i p hi :=
    (Contract.family_along hR).meets_stable (fun _ => hq _ _ _ _ hs) (h.pending i p hi) hs
  replies r hr := hq _ _ _ _ hs (h.replies r hr)

theorem step (houtside : ∀ m m', outside m m' → R m m')
    (hserve : ∀ k t, (serve k).Meets (.along R t.id) t (fun r _ s' => Q k r s'.machine) s)
    (h : c.Along R Q s) (hs : Step serve outside (c, s) (c', s')) :
    c'.Along R Q s' ∧ R s.machine s'.machine := by
  cases hs with
  | call k t _ =>
    refine ⟨⟨fun j p hj => ?_, h.replies⟩, hR.refl _⟩
    rcases pending_begin hj with ⟨rfl, rfl⟩ | ⟨-, hj⟩
    · exact hserve k t
    · exact h.pending j p hj
  | @move _ _ _ p q i hi hm =>
    have hp := (Contract.family_along hR).meets_moves (h.pending i p hi) hm
    have hs := h.stable hR hq hp.1
    refine ⟨⟨fun j x hj => ?_, hs.replies⟩, hp.1⟩
    rcases pending_goOn hj with ⟨rfl, rfl⟩ | ⟨-, hj⟩
    · exact hp.2
    · exact hs.pending j x hj
  | @reply _ _ p outcome t i hi hp =>
    refine ⟨⟨fun j x hj => h.pending j x (pending_reply hj).2, fun r hr => ?_⟩, hR.refl _⟩
    rcases List.mem_append.1 hr with hr | hr
    · exact h.replies r hr
    · have hdone := h.pending i p hi
      rw [hp] at hdone
      rw [List.mem_singleton.1 hr]
      exact hdone
  | outside hm => exact ⟨h.stable hR hq (houtside _ _ hm), houtside _ _ hm⟩

theorem run {P : Machine → Prop} (hP : ∀ m m', R m m' → P m → P m')
    (houtside : ∀ m m', outside m m' → R m m')
    (hserve : ∀ k t s, P s.machine →
      (serve k).Meets (.along R t.id) t (fun r _ s' => Q k r s'.machine) s)
    (hs : P s.machine) (h : c.Along R Q s) (hr : Run serve outside (c, s) (c', s')) :
    c'.Along R Q s' ∧ R s.machine s'.machine := by
  generalize hx : (c', s') = x at hr
  induction hr generalizing c' s' with
  | refl =>
    cases hx
    exact ⟨h, hR.refl _⟩
  | @tail b _ _ hstep ih =>
    subst hx
    obtain ⟨hb, hsb⟩ := @ih b.1 b.2 rfl
    have hlast := hb.step hR hq houtside (fun k t => hserve k t b.2 (hP _ _ hsb hs)) hstep
    exact ⟨hlast.1, hR.trans hsb hlast.2⟩

end Along

end Callers

end BytecodeMachine
