import BytecodeMachine.Entry
import BytecodeMachine.Proofs.Balance
import BytecodeMachine.Proofs.Setup.Coherence
import BytecodeMachine.Proofs.Typing.Deeds

namespace BytecodeMachine

variable {α β : Type}

namespace Machine

variable {m m' : Machine}

def Resolves (m : Machine) (ref : FieldRef) (f : Field) : Prop :=
  f.type = ref.type ∧ ∃ c, m.classes.get? ref.klass = some c ∧ c.lookupField? ref.name = some f

theorem Grows.resolves (h : m.Grows m') {ref : FieldRef} {f : Field} (hf : m.Resolves ref f) :
    m'.Resolves ref f :=
  hf.imp_right fun ⟨c, hc, hl⟩ => ⟨c, h.classes _ _ hc, hl⟩

theorem rests_of_heap (h : Heap) (hh : ∀ o, (h.get? o).map Object.content =
    (m.heap.get? o).map Object.content) : m.Rests { m with heap := h } :=
  ⟨rfl, .refl, rfl, hh⟩

theorem rests_note (e : Event) (m : Machine) : m.Rests (m.note e) :=
  ⟨rfl, .refl, rfl, fun _ => rfl⟩

theorem rests_pass (x : Sign) (m : Machine) : m.Rests (m.pass x) := by
  cases x with
  | noted e => exact rests_note e m
  | _ => exact .refl m

theorem rests_setMonitor (o : ObjectId) (monitor : Monitor) (m : Machine) :
    m.Rests (m.setMonitor o monitor) := by
  refine rests_of_heap _ fun p => ?_
  rw [Heap.get?_modify]
  split
  · cases m.heap.get? p <;> rfl
  · rfl

theorem rests_modifyRecord (thread : Nat) (f : ThreadRecord → ThreadRecord) (m : Machine) :
    m.Rests (m.modifyRecord thread f) :=
  ⟨rfl, .refl, rfl, fun _ => rfl⟩

theorem rests_takeInterrupt (thread : Nat) (m : Machine) : m.Rests (m.takeInterrupt thread).2 :=
  rests_modifyRecord thread (fun r => { r with interrupted := false }) m

theorem rests_setInitState (n : ClassName) (x : InitState) (m : Machine) :
    m.Rests (m.setInitState n x) :=
  ⟨rfl, .refl, rfl, fun _ => rfl⟩

theorem rests_recordExit (code : Int32) (m : Machine) : m.Rests (m.recordExit code) := by
  unfold recordExit
  split
  · exact ⟨rfl, .refl, rfl, fun _ => rfl⟩
  · split
    · exact .refl m
    · exact rests_note _ m

theorem rests_unlock (m : Machine) : m.Rests m.unlock := by
  unfold unlock
  split
  · exact .refl m
  · exact ⟨rfl, .refl, rfl, fun _ => rfl⟩

theorem rests_resolve {res : List Library → Resolving α} {P : α → ClassTable → Prop}
    (h : ∀ libraries table, (res libraries).Keeps libraries P table) (m : Machine) :
    m.Rests (m.resolve res).2 := by
  have step : ∀ (l : ClassTable) (m1 : Machine), m.Rests m1 →
      m.Rests (l.foldl (fun m e => m.note (.loaded e.1)) m1) := by
    intro l
    induction l with
    | nil => exact fun _ hr => hr
    | cons e l ih => exact fun m1 hr => ih _ (hr.trans (rests_note _ m1))
  exact step _ _ ⟨rfl, (h m.libraries m.classes).1, rfl, fun _ => rfl⟩

theorem rests_of_attempt {b : Blocker} {w : Wake} (h : b.attempt m = some (w, m')) :
    m.Rests m' := by
  cases b with
  | turn =>
    cases h
    exact .refl m
  | machineLock t =>
    simp only [Blocker.attempt, lock?] at h
    repeat' split at h
    all_goals cases h
    · exact ⟨rfl, .refl, rfl, fun _ => rfl⟩
    · exact ⟨rfl, .refl, rfl, fun _ => rfl⟩
  | enter o t =>
    simp only [Blocker.attempt] at h
    repeat' split at h
    all_goals cases h
    · exact rests_setMonitor _ _ m
    · exact .refl m
  | notification o t ticket d =>
    have hk := rests_takeInterrupt t m
    simp only [Blocker.attempt, Blocker.leave] at h
    generalize m.takeInterrupt t = r at hk h
    obtain ⟨interrupted, m1⟩ := r
    have hl := hk.trans (rests_setMonitor o ((m1.monitorOf o).leave ticket) m1)
    cases interrupted
    all_goals
      dsimp only at h
      repeat' split at h
      all_goals cases h
      · exact rests_setMonitor _ _ m
      all_goals exact hl
  | retake o t count =>
    simp only [Blocker.attempt, Option.map_eq_some_iff] at h
    obtain ⟨monitor, -, h⟩ := h
    cases h
    exact rests_setMonitor _ _ m
  | nap t d =>
    have hk := rests_takeInterrupt t m
    simp only [Blocker.attempt] at h
    generalize m.takeInterrupt t = r at hk h
    obtain ⟨interrupted, m1⟩ := r
    cases interrupted
    all_goals
      dsimp only at h
      repeat' split at h
      all_goals cases h
      · exact .refl m
      all_goals exact hk

end Machine

namespace Prog

def IsRestful : Prog α → Prop
  | .done _ => True
  | .step f next => (∀ m : Machine, m.Rests (f m).2) ∧ ∀ b, (next b).IsRestful
  | .sign _ next => next.IsRestful
  | .wait _ next => ∀ w, (next w).IsRestful
  | .starved => True

theorem isRestful_bind {p : Prog α} {f : α → Prog β} (hp : p.IsRestful)
    (hf : ∀ a, (f a).IsRestful) : (p >>= f).IsRestful := by
  change (p.bind f).IsRestful
  induction p with
  | done a => exact hf a
  | step g next ih => exact ⟨hp.1, fun b => ih b (hp.2 b)⟩
  | sign x next ih => exact ih hp
  | wait b next ih => exact fun w => ih w (hp w)
  | starved => trivial

theorem isRestful_act {f : Machine → α × Machine} (h : ∀ m : Machine, m.Rests (f m).2) :
    (act f).IsRestful :=
  ⟨h, fun _ => trivial⟩

theorem isRestful_read (f : Machine → α) : (read f).IsRestful := isRestful_act Machine.Rests.refl

theorem isRestful_update {f : Machine → Machine} (h : ∀ m : Machine, m.Rests (f m)) :
    (update f).IsRestful :=
  isRestful_act h

theorem isRestful_await (b : Blocker) : (await b).IsRestful := fun _ => trivial

theorem isRestful_turn : turn.IsRestful := fun _ => trivial

theorem isRestful_actOn (o : ObjectId) (f : Monitor → Option Monitor) :
    (act (·.actOn o f)).IsRestful := by
  refine isRestful_act fun m => ?_
  unfold Machine.actOn
  split <;> exact Machine.rests_setMonitor _ _ m

theorem isRestful_exitMonitor (thread : Nat) (o : ObjectId) (checked : Bool) :
    (exitMonitor thread o checked).IsRestful := by
  refine isRestful_bind (isRestful_actOn o _) fun b => ?_
  split <;> trivial

theorem isRestful_notify (thread : Nat) (o : ObjectId) (all : Bool) :
    (notify thread o all).IsRestful := by
  refine isRestful_bind (isRestful_actOn o _) fun b => ?_
  split <;> trivial

theorem isRestful_enterMonitor (thread : Nat) (o : ObjectId) :
    (enterMonitor thread o).IsRestful := by
  refine isRestful_bind (isRestful_await _) fun w => ?_
  cases w <;> trivial

theorem isRestful_waitOn (thread : Nat) (o : ObjectId) (millis : Int64) (nanos : Int32) :
    (waitOn thread o millis nanos).IsRestful := by
  refine isRestful_bind (isRestful_update fun m => Machine.rests_setMonitor _ _ m) fun _ => ?_
  refine isRestful_bind (isRestful_read _) fun held => ?_
  dsimp only
  split
  · trivial
  · refine isRestful_bind (isRestful_act fun m => Machine.rests_takeInterrupt thread m) fun b => ?_
    split
    · trivial
    · refine isRestful_bind (isRestful_read _) fun d => ?_
      refine isRestful_bind (isRestful_act fun m => Machine.rests_setMonitor _ _ m) fun p => ?_
      refine isRestful_bind (isRestful_await _) fun w => ?_
      refine isRestful_bind (isRestful_await _) fun _ => ?_
      refine isRestful_bind (isRestful_read _) fun b => ?_
      split <;> trivial

theorem isRestful_tellAll (threads : List Nat) : (tellAll threads).IsRestful := by
  induction threads with
  | nil => trivial
  | cons thread rest ih =>
    refine isRestful_bind isRestful_turn fun _ => ?_
    exact isRestful_bind (isRestful_update fun m => Machine.rests_modifyRecord _ _ m) fun _ => ih

theorem isRestful_exit (code : Int32) : (exit code).IsRestful := by
  refine isRestful_bind (isRestful_update fun m => Machine.rests_recordExit code m) fun _ => ?_
  refine isRestful_bind isRestful_turn fun _ => ?_
  exact isRestful_bind (isRestful_read _) fun threads => isRestful_tellAll threads

theorem IsRestful.meets {p : Prog α} (h : p.IsRestful) {i : Nat} {s : Scene}
    (hs : s.machine.Sound) :
    p.Meets (.deeds i) (fun _ s' => s.machine.Course s'.machine) s := by
  have onward {p : Prog α} {s s1 : Scene} (hc : s.machine.Course s1.machine)
      (h : p.Meets (.deeds i) (fun _ s' => s1.machine.Course s'.machine) s1) :
      p.Meets (.deeds i) (fun _ s' => s.machine.Course s'.machine) s1 :=
    h.mono fun _ _ h => hc.trans h
  induction p generalizing s with
  | done a => exact .refl
  | step f next ih =>
    intro s' hr
    have hd := Machine.Deed.rest (h.1 s'.machine)
    have hs' := hs.course (hr hs)
    exact ⟨fun _ => hd, onward ((hr hs).tail hd) (ih _ (h.2 _) (hs'.deed hd))⟩
  | sign x next ih =>
    intro s' hr
    have hd := Machine.Deed.rest (Machine.rests_pass x s'.machine)
    have hs' := hs.course (hr hs)
    exact ⟨fun _ => hd, onward ((hr hs).tail hd) (ih h (hs'.deed hd))⟩
  | wait b next ih =>
    intro s' w m hr ha
    have hd := Machine.Deed.rest (Machine.rests_of_attempt ha)
    have hs' := hs.course (hr hs)
    exact ⟨fun _ => hd, onward ((hr hs).tail hd) (ih w (h w) (hs'.deed hd))⟩
  | starved => trivial

end Prog

namespace Exec

def Acts (m : Machine) (x : Exec α) (Q : α → Machine → Prop) : Prop :=
  ∀ (i : Nat) (t : Thread) (s : Scene), s.machine.Sound → m.Grows s.machine →
    x.Meets (.deeds i) t
      (fun r _ s' => s.machine.Course s'.machine ∧ ∀ a, r = .ok a → Q a s'.machine) s

def Lawful (x : Exec α) : Prop := ∀ m, Acts m x fun _ _ => True

section Kin

variable {t : Thread} {s : Scene} {i : Nat}

theorem kin_of_built {x : Exec α} (h : ∀ e, Built e .every .host [] x) :
    x.Meets (.free i) t (fun _ t1 _ => t.Kin t1) s :=
  (h (.bounded 0)).kin (Engine.balanced_bounded 0) t i s

theorem classOf_kin (o : ObjectId) :
    (classOf o).Meets (.free i) t (fun _ t1 _ => t.Kin t1) s :=
  kin_of_built fun _ => .classOf o

theorem loadClass_kin (n : ClassName) :
    (loadClass n).Meets (.free i) t (fun _ t1 _ => t.Kin t1) s :=
  kin_of_built fun _ => .loadClass n

theorem resolveField_kin (f : FieldRef) :
    (resolveField f).Meets (.free i) t (fun _ t1 _ => t.Kin t1) s := by
  refine kin_of_built fun _ => ?_
  rw [← bind_pure (resolveField f)]
  exact .resolveField_bind fun _ => .pure _

theorem resolveMethod_kin (f : MethodRef) :
    (resolveMethod f).Meets (.free i) t (fun _ t1 _ => t.Kin t1) s := by
  refine kin_of_built fun _ => ?_
  rw [← bind_pure (resolveMethod f)]
  exact .resolveMethod_bind fun _ => .pure _

end Kin

namespace Acts

variable {m : Machine} {P : α → Machine → Prop} {Q : β → Machine → Prop}

theorem mono {x : Exec α} {R : α → Machine → Prop} (h : Acts m x P)
    (hr : ∀ a m', m.Grows m' → m'.Sound → P a m' → R a m') : Acts m x R := by
  intro i t s hs hg
  refine (h i t s hs hg).mono fun r t' s' h' => ⟨h'.1, fun a ha => ?_⟩
  exact hr a _ (hg.trans h'.1.grows) (hs.course h'.1) (h'.2 a ha)

theorem pure {a : α} (h : ∀ m', m.Grows m' → P a m') : Acts m (Pure.pure a) P := by
  refine fun i t s hs hg => ⟨.refl, fun b hb => ?_⟩
  cases hb
  exact h _ hg

theorem throw (trap : Trap) : Acts m (MonadExcept.throw trap : Exec α) P :=
  fun _ _ _ _ _ => ⟨.refl, nofun⟩

theorem raise (cause : Cause) : Acts m (Exec.raise cause : Exec α) P := throw _

theorem fail (fault : Fault) : Acts m (Exec.fail fault : Exec α) P := throw _

theorem ofTrap {r : Except Trap α} (h : ∀ a m', r = .ok a → m.Grows m' → P a m') :
    Acts m (Exec.ofTrap r) P := by
  cases r with
  | ok a => exact pure fun m' => h a m' rfl
  | error trap => exact throw trap

theorem ofExcept {r : Except Fault α} (h : ∀ a m', r = .ok a → m.Grows m' → P a m') :
    Acts m (Exec.ofExcept r) P := by
  cases r with
  | ok a => exact pure fun m' => h a m' rfl
  | error fault => exact fail fault

theorem bind {x : Exec α} {f : α → Exec β} (hx : Acts m x P)
    (hf : ∀ a m', m.Grows m' → P a m' → Acts m' (f a) Q) : Acts m (x >>= f) Q := by
  intro i t s hs hg
  refine meets_bind.2 ((hx i t s hs hg).mono fun r t1 s1 h => ?_)
  cases r with
  | error trap => exact ⟨h.1, nofun⟩
  | ok a =>
    have ha := hf a _ (hg.trans h.1.grows) (h.2 a rfl)
    rw [after_ok]
    refine (ha i t1 s1 (hs.course h.1) (.refl _)).mono fun _ _ _ h' => ?_
    exact ⟨h.1.trans h'.1, h'.2⟩

theorem attempt_bind {x : Exec α} {f : Except Trap α → Exec β} (hx : Acts m x P)
    (ok : ∀ a m', m.Grows m' → P a m' → Acts m' (f (.ok a)) Q)
    (caught : ∀ trap m', m.Grows m' → Acts m' (f (.error trap)) Q) :
    Acts m (attempt x >>= f) Q := by
  intro i t s hs hg
  refine meets_bind.2 (meets_attempt.2 ((hx i t s hs hg).mono fun r t1 s1 h => ?_))
  have hf : Acts s1.machine (f r) Q := by
    cases r with
    | error trap => exact caught trap _ (hg.trans h.1.grows)
    | ok a => exact ok a _ (hg.trans h.1.grows) (h.2 a rfl)
  rw [after_ok]
  refine (hf i t1 s1 (hs.course h.1) (.refl _)).mono fun _ _ _ h' => ?_
  exact ⟨h.1.trans h'.1, h'.2⟩

theorem get : Acts m (MonadState.get : Exec Thread) fun _ _ => True :=
  fun _ _ _ _ _ => ⟨.refl, fun _ _ => trivial⟩

theorem kin_bind {x : Exec α} {f : α → Exec β} {i : Nat} {t : Thread} {s : Scene} {post : Post β}
    (hs : s.machine.Sound) (hx : Acts s.machine x P)
    (hk : x.Meets (.free i) t (fun _ t1 _ => t.Kin t1) s)
    (hf : ∀ a t1 s1, t.Kin t1 → s.machine.Course s1.machine → P a s1.machine →
      (f a).Meets (.deeds i) t1 post s1)
    (hpost : ∀ trap t1 s1, t.Kin t1 → post (.error trap) t1 s1) :
    (x >>= f).Meets (.deeds i) t post s := by
  refine meets_bind.2 (((hx i t s hs (.refl _)).and_free hk).mono ?_)
  intro r t1 s1 h
  cases r with
  | error trap => exact hpost trap t1 s1 h.2
  | ok a => exact hf a t1 s1 h.2 h.1.1 (h.1.2 a rfl)

theorem act {f : Machine → α × Machine}
    (h : ∀ m', m.Grows m' → m'.Sound → m'.Deed (f m').2 ∧ P (f m').1 (f m').2) :
    Acts m (Exec.act f) P := by
  intro i t s hs hg
  refine meets_lift.2 fun s' hr => ?_
  have hc := hr hs
  have hd := h s'.machine (hg.trans hc.grows) (hs.course hc)
  exact ⟨fun _ => hd.1, hc.tail hd.1, fun a ha => by cases ha; exact hd.2⟩

theorem update {f : Machine → Machine} {Q : Unit → Machine → Prop}
    (h : ∀ m', m.Grows m' → m'.Sound → m'.Deed (f m') ∧ Q () (f m')) :
    Acts m (Exec.update f) Q :=
  act h

theorem read (f : Machine → α) : Acts m (Exec.read f) fun a m' => a = f m' :=
  act fun m' _ _ => ⟨.rest (.refl m'), rfl⟩

theorem looking {res : List Library → Resolving α} {R : α → ClassTable → Prop}
    (h : ∀ libraries table, (res libraries).Keeps libraries R table) :
    Acts m (Exec.act (·.resolve res)) fun r m' => ∀ a, r = .ok a → R a m'.classes := by
  refine act fun m' _ _ => ⟨.rest (Machine.rests_resolve h m'), fun a ha => ?_⟩
  exact Machine.of_resolve h ha

theorem resolve {res : List Library → Resolving α} {R : α → ClassTable → Prop}
    (h : ∀ libraries table, (res libraries).Keeps libraries R table)
    (hR : ∀ a table table', ClassTable.Extends table table' → R a table → R a table') :
    Acts m (Exec.resolve res) fun a m' => R a m'.classes := by
  refine (looking h).bind fun r m1 _ hr => ?_
  cases r with
  | error e => exact throw _
  | ok a => exact pure fun m2 hg => hR a _ _ hg.classes (hr a rfl)

theorem lift {p : Prog α} (h : p.IsRestful) : Acts m (Exec.lift p) fun _ _ => True := by
  intro i t s hs _
  exact meets_lift.2 ((h.meets hs).mono fun _ _ hc => ⟨hc, fun _ _ => trivial⟩)

theorem locked {x : Exec α} (hx : Acts m x P)
    (hp : ∀ a m1 m2, m1.Grows m2 → P a m1 → P a m2) : Acts m (Exec.locked x) P := by
  intro i t s hs hg
  refine meets_locked.2 (((Prog.isRestful_await _).meets hs).mono fun _ s1 h1 => ?_)
  refine (hx i t s1 (hs.course h1) (hg.trans h1.grows)).mono fun r t2 s2 h2 => ?_
  have hs2 := (hs.course h1).course h2.1
  refine ((Prog.isRestful_update Machine.rests_unlock).meets hs2).mono fun _ s3 h3 => ?_
  refine ⟨(h1.trans h2.1).trans h3, fun a ha => hp a _ _ h3.grows (h2.2 a ha)⟩

theorem loadClass (n : ClassName) :
    Acts m (Exec.loadClass n) fun c m' => m'.classes.get? n = some c ∧ m'.Has c := by
  refine (resolve (Resolving.finds_loadClass n) fun c _ _ hg => hg n c).mono ?_
  exact fun c m' _ hs hc => ⟨hc, hs.has hc⟩

theorem resolveClass (n : ClassName) :
    Acts m (Exec.resolveClass n) fun c m' => m'.Has c := by
  refine get.bind fun t m1 _ _ => ?_
  refine (resolve (Resolving.finds_resolveClass n _) fun c _ _ hg => hg n c).mono ?_
  exact fun c m' _ hs hc => hs.has hc

theorem resolveField (f : FieldRef) :
    Acts m (Exec.resolveField f) fun a m' => m'.Has a.1 ∧ a.2 ∈ a.1.fields ∧
      m'.Resolves f a.2 := by
  refine get.bind fun t m1 _ _ => ?_
  refine (resolve (Resolving.keeps_resolveField f _) fun a table table' hg h => ?_).mono ?_
  · exact ⟨hg _ _ h.1, h.2.imp_right fun h => h.imp fun c hc => ⟨hg _ _ hc.1, hc.2⟩⟩
  · rintro a m' - hs ⟨ho, ht, c, hc, hf⟩
    obtain ⟨d, hd, hmem⟩ := hs.closed.owner hc hf
    cases ho.symm.trans hd
    exact ⟨hs.has ho, hmem, ht, c, hc, hf⟩

theorem resolveMethod (f : MethodRef) :
    Acts m (Exec.resolveMethod f) fun a m' => m'.Has a.1 := by
  refine get.bind fun t m1 _ _ => ?_
  refine (resolve (Resolving.finds_resolveMethod f _) fun a _ _ hg => hg _ _).mono ?_
  exact fun a m' _ hs ha => hs.has ha

theorem arrayClass (t : FieldType) :
    Acts m (Exec.arrayClass t) fun c m' => m'.Has c ∧ c.componentType? = some t := by
  have h (libraries : List Library) (table : ClassTable) :
      (Resolving.arrayClass libraries t).Keeps libraries (fun c table =>
        ∃ n, (FieldType.array t).className? = some n ∧ table.get? n = some c) table := by
    unfold Resolving.arrayClass
    cases hn : (FieldType.array t).className? with
    | none => exact Resolving.keeps_throw
    | some n =>
      have hload := Resolving.finds_loadClass n libraries table
      exact ⟨hload.1, fun c hc => ⟨n, rfl, hload.2 c hc⟩⟩
  refine (resolve h fun c _ _ hg hc => hc.imp fun n h => ⟨h.1, hg _ _ h.2⟩).mono ?_
  rintro c m' - hs ⟨n, hn, hc⟩
  exact ⟨hs.has hc, hs.closed.componentType hn hc⟩

end Acts

namespace Lawful

theorem mono {x : Exec α} {m : Machine} {P : α → Machine → Prop} (h : Acts m x P) :
    Acts m x fun _ _ => True :=
  h.mono fun _ _ _ _ _ => trivial

theorem pure (a : α) : Lawful (Pure.pure a) := fun _ => .pure fun _ _ => trivial

theorem throw (trap : Trap) : Lawful (MonadExcept.throw trap : Exec α) := fun _ => .throw trap

theorem raise (cause : Cause) : Lawful (Exec.raise cause : Exec α) := throw _

theorem fail (fault : Fault) : Lawful (Exec.fail fault : Exec α) := throw _

theorem ofTrap (r : Except Trap α) : Lawful (Exec.ofTrap r) := fun _ => .ofTrap fun _ _ _ _ => trivial

theorem ofExcept (r : Except Fault α) : Lawful (Exec.ofExcept r) :=
  fun _ => .ofExcept fun _ _ _ _ => trivial

theorem get : Lawful (MonadState.get : Exec Thread) := fun _ => .get

theorem modify (f : Thread → Thread) : Lawful (modify f : Exec PUnit) :=
  fun _ _ _ _ _ _ => ⟨.refl, fun _ _ => trivial⟩

theorem set (t : Thread) : Lawful (set t : Exec PUnit) :=
  fun _ _ _ _ _ _ => ⟨.refl, fun _ _ => trivial⟩

theorem bind {x : Exec α} {f : α → Exec β} (hx : Lawful x) (hf : ∀ a, Lawful (f a)) :
    Lawful (x >>= f) :=
  fun m => (hx m).bind fun a m' _ _ => hf a m'

theorem attempt_bind {x : Exec α} {f : Except Trap α → Exec β} (hx : Lawful x)
    (hf : ∀ r, Lawful (f r)) : Lawful (attempt x >>= f) :=
  fun m => (hx m).attempt_bind (fun a m' _ _ => hf (.ok a) m') fun trap m' _ => hf (.error trap) m'

theorem lift {p : Prog α} (h : p.IsRestful) : Lawful (Exec.lift p) := fun _ => .lift h

theorem act {f : Machine → α × Machine} (h : ∀ m : Machine, m.Rests (f m).2) :
    Lawful (Exec.act f) :=
  lift (Prog.isRestful_act h)

theorem read (f : Machine → α) : Lawful (Exec.read f) := lift (Prog.isRestful_read f)

theorem update {f : Machine → Machine} (h : ∀ m : Machine, m.Rests (f m)) :
    Lawful (Exec.update f) :=
  lift (Prog.isRestful_update h)

theorem pass (x : Sign) : Lawful (Exec.pass x) := lift trivial

theorem note (x : Event) : Lawful (Exec.note x) := lift trivial

theorem await (b : Blocker) : Lawful (Exec.await b) := lift (Prog.isRestful_await b)

theorem inFrame (action : FrameM α) : Lawful (Exec.inFrame action) := by
  intro m i t s hs hg
  cases hf : t.frames with
  | nil => exact (meets_inFrame_nil hf).2 ⟨.refl, fun _ _ => trivial⟩
  | cons f rest => exact (meets_inFrame_cons hf).2 ⟨.refl, fun _ _ => trivial⟩

theorem push (v : Value) : Lawful (Exec.push v) := inFrame _

theorem locked {x : Exec α} (hx : Lawful x) : Lawful (Exec.locked x) :=
  fun m => (hx m).locked fun _ _ _ _ _ => trivial

theorem check {b : Prop} [Decidable b] {x : Exec PUnit} {k : PUnit → Exec α} (hx : Lawful x)
    (hk : ∀ u, Lawful (k u)) : Lawful (if b then x >>= k else k ()) := by
  split
  · exact hx.bind hk
  · exact hk ()

theorem looking {res : List Library → Resolving α} {entry : α → ClassName × Class}
    (h : Resolving.Finds res entry) : Lawful (Exec.act (·.resolve res)) :=
  act (Machine.rests_resolve h)

theorem loadClass (n : ClassName) : Lawful (Exec.loadClass n) := fun _ => mono (.loadClass n)

theorem resolveClass (n : ClassName) : Lawful (Exec.resolveClass n) :=
  fun _ => mono (.resolveClass n)

theorem object (o : ObjectId) : Lawful (Exec.object o) := by
  refine (read _).bind fun found => ?_
  cases found with
  | some object => exact pure object
  | none => exact fail _

theorem classOf (o : ObjectId) : Lawful (Exec.classOf o) := (object o).bind fun _ => pure _

theorem storage (o : ObjectId) : Lawful (Exec.storage o) := (object o).bind fun _ => ofExcept _

theorem field (o : ObjectId) (k : Nat) : Lawful (Exec.field o k) :=
  (object o).bind fun _ => ofExcept _

end Lawful

end Exec

end BytecodeMachine
