import BytecodeMachine.Proofs.Balance
import BytecodeMachine.Proofs.EntryRuns.Following
import BytecodeMachine.Proofs.Upkeep
import BytecodeMachine.Proofs.Weaving

namespace BytecodeMachine

variable {α β : Type} {i : Nat} {t : Thread} {s : Scene}

namespace Machine

structure Carries (m m' : Machine) : Prop where
  libraries : m'.libraries = m.libraries
  loaded : ClassTable.Loaded m.libraries m.classes m'.classes
  isOf : ∀ o c, m.IsOf o c → m'.IsOf o c

theorem upkept_carries : Upkept Carries where
  leaves h := ⟨h.libraries, h.loaded, fun _ _ => h.isOf⟩
  trans h h' := ⟨h'.libraries.trans h.libraries, h.loaded.trans (h.libraries ▸ h'.loaded),
    fun o c ho => h'.isOf o c (h.isOf o c ho)⟩
  libraries h := h.libraries
  loaded h := h.loaded
  enroll _ _ := ⟨rfl, .refl, fun _ _ h => h⟩
  keep _ _ _ := ⟨rfl, .refl, fun _ _ h => h⟩
  report _ _ _ _ := ⟨rfl, .refl, fun _ _ h => h⟩

end Machine

namespace Exec

def Blameless (x : Exec α) : Prop :=
  ∀ (t : Thread) (i : Nat) (s : Scene),
    x.Meets (.free i) t (fun _ t' _ => t'.uncaught = t.uncaught) s

namespace Blameless

variable {e : Engine}

theorem pure (a : α) : Blameless (Pure.pure a) := fun _ _ _ => rfl

theorem throw (trap : Trap) : Blameless (MonadExcept.throw trap : Exec α) := fun _ _ _ => rfl

theorem lift (p : Prog α) : Blameless (Exec.lift p) :=
  fun _ _ _ => lift_meets_free (fun _ _ => rfl) p

theorem bind {x : Exec α} {f : α → Exec β} (hx : Blameless x) (hf : ∀ a, Blameless (f a)) :
    Blameless (x >>= f) := by
  intro t i s
  refine meets_bind.2 ((hx t i s).mono fun r t1 s1 h1 => ?_)
  cases r with
  | error trap => exact h1
  | ok a => exact (hf a t1 i s1).mono fun _ _ _ h => h.trans h1

theorem modify {f : Thread → Thread} (h : ∀ t, (f t).uncaught = t.uncaught) :
    Blameless (modify f : Exec PUnit) :=
  fun t _ _ => h t

theorem get : Blameless (MonadState.get : Exec Thread) := fun _ _ _ => rfl

theorem get_bind {f : Thread → Exec α}
    (h : ∀ t i s, (f t).Meets (.free i) t (fun _ t' _ => t'.uncaught = t.uncaught) s) :
    Blameless (MonadState.get >>= f) :=
  fun t i s => meets_bind.2 (h t i s)

theorem set_bind {f : PUnit → Exec α} {u : Thread} (h : u.uncaught = t.uncaught)
    (hf : Blameless (f ⟨⟩)) :
    (MonadState.set u >>= f).Meets (.free i) t (fun _ t' _ => t'.uncaught = t.uncaught) s :=
  meets_bind.2 ((hf u i s).mono fun _ _ _ h' => h'.trans h)

theorem built (he : e.Balanced) {z : Realm} {r : Reach} {known : Known} {x : Exec α}
    (h : Built e z r known x) : Blameless x :=
  fun t i s => (h.effect he t i s).mono fun _ _ _ h' => h'.1.uncaught

theorem step (he : e.Balanced) : Blameless (Exec.step e) :=
  fun _ _ _ => (step_stepped he).mono fun _ _ _ h => h.akin.uncaught

theorem exitAllFrames : Blameless exitAllFrames := by
  refine get_bind fun t i s => lift_bind_meets_free (fun _ s => ?_) _
  exact meets_set.2 rfl

theorem reportFatal (fault : Fault) : Blameless (reportFatal fault) := by
  refine get_bind fun t i s => ?_
  split
  · rfl
  · refine lift_bind_meets_free (fun _ s => ?_) _
    refine set_bind (u := { t with fatalReported := true, fatalTrace := none }) rfl ?_
    exact bind (lift _) fun _ => bind exitAllFrames fun _ => lift _

theorem abort (trap : Trap) (limit : Nat) : Blameless (abort trap limit) := by
  have fatal (fault : Fault) : Blameless (abort.abortFatal limit fault) := by
    refine bind (modify fun _ => rfl) fun _ => ?_
    dsimp only
    split
    · exact bind (reportFatal fault) fun _ => throw _
    · exact throw _
  cases trap with
  | throw o => exact throw _
  | raise cause => exact fatal _
  | fatal fault => exact fatal fault
  | exit =>
    unfold Exec.abort
    dsimp only
    split
    · exact bind exitAllFrames fun _ => throw _
    · exact throw _

theorem ended (he : e.Balanced) (outcome : Except Trap Unit) : Blameless (ended outcome) := by
  have fatal (fault : Fault) : Blameless (do
      Exec.reportFatal fault
      Pure.pure (.error (.fatal fault)) : Exec (Except RunError Unit)) :=
    bind (reportFatal fault) fun _ => pure _
  rcases outcome with trap | ⟨⟩
  · cases trap with
    | throw o => exact bind (lift _) fun _ => fatal _
    | raise cause => exact bind (lift _) fun _ => fatal _
    | fatal fault => exact fatal fault
    | exit =>
      refine bind exitAllFrames fun _ => bind (lift _) fun status => ?_
      cases status with
      | none => exact pure _
      | some code => exact pure _
  · refine get_bind fun t i s => ?_
    split
    · rfl
    · have hc (o : ObjectId) : Built e .every .host [] (classOf o) := .classOf o
      exact bind (built he (hc _)) (fun _ => pure _) t i s

end Blameless

end Exec

end BytecodeMachine
