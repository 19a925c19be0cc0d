import BytecodeMachine.Exec.Run
import BytecodeMachine.Proofs.Actions
import BytecodeMachine.Proofs.Identities.Tables

namespace BytecodeMachine

variable {α β : Type}

def Trap.isCatchable : Trap → Bool
  | .throw _ | .raise _ => true
  | .fatal _ | .exit => false

def Sign.isPlain : Sign → Bool
  | .noted (.step _ _ _) | .noted (.fatal _ _) => false
  | .noted (.initializing _) | .noted (.initialized _) => false
  | .noted _ => true
  | _ => false

namespace Machine

structure Keeps (m m' : Machine) : Prop where
  libraries : m'.libraries = m.libraries
  classes : m'.classes = m.classes
  initStates : m'.initStates = m.initStates
  lock : m'.lock = m.lock
  statics : ∀ k, (m.statics.get? k).isSome → (m'.statics.get? k).isSome
  exitStatus : ∀ code, m.exitStatus = some code → m'.exitStatus = some code

structure Spares (m m' : Machine) : Prop extends Keeps m m' where
  values : m'.statics = m.statics

theorem Spares.of_eq {m m' : Machine} (libraries : m'.libraries = m.libraries)
    (classes : m'.classes = m.classes) (initStates : m'.initStates = m.initStates)
    (lock : m'.lock = m.lock) (statics : m'.statics = m.statics)
    (exitStatus : ∀ code, m.exitStatus = some code → m'.exitStatus = some code) : m.Spares m' :=
  ⟨⟨libraries, classes, initStates, lock, fun _ h => statics ▸ h, exitStatus⟩, statics⟩

theorem Spares.refl (m : Machine) : m.Spares m := .of_eq rfl rfl rfl rfl rfl fun _ h => h

theorem Spares.trans {m1 m2 m3 : Machine} (h : m1.Spares m2) (h' : m2.Spares m3) :
    m1.Spares m3 :=
  .of_eq (h'.libraries.trans h.libraries) (h'.classes.trans h.classes)
    (h'.initStates.trans h.initStates) (h'.lock.trans h.lock) (h'.values.trans h.values)
    fun code hc => h'.exitStatus code (h.exitStatus code hc)

theorem spares_note (e : Event) (m : Machine) : m.Spares (m.note e) :=
  .of_eq rfl rfl rfl rfl rfl fun _ h => h

theorem spares_setMonitor (o : ObjectId) (monitor : Monitor) (m : Machine) :
    m.Spares (m.setMonitor o monitor) :=
  .of_eq rfl rfl rfl rfl rfl fun _ h => h

theorem spares_modifyRecord (thread : Nat) (f : ThreadRecord → ThreadRecord) (m : Machine) :
    m.Spares (m.modifyRecord thread f) :=
  .of_eq rfl rfl rfl rfl rfl fun _ h => h

theorem spares_takeInterrupt (thread : Nat) (m : Machine) :
    m.Spares (m.takeInterrupt thread).2 :=
  spares_modifyRecord thread (fun r => { r with interrupted := false }) m

theorem spares_heap (h : Heap) (m : Machine) : m.Spares { m with heap := h } :=
  .of_eq rfl rfl rfl rfl rfl fun _ h => h

theorem spares_alloc (o : Object) (bytes : Nat) (m : Machine) : m.Spares (m.alloc o bytes).2 :=
  .of_eq rfl rfl rfl rfl rfl fun _ h => h

theorem spares_recordExit (code : Int32) (m : Machine) : m.Spares (m.recordExit code) := by
  unfold recordExit
  split
  · exact .of_eq rfl rfl rfl rfl rfl fun _ h => by simp_all
  · split
    · exact .refl m
    · exact spares_note _ m

theorem spares_enroll (n : ClassName) (o : ObjectId) (m : Machine) : m.Spares (m.enroll n o).2 :=
  .of_eq rfl rfl rfl rfl rfl fun _ h => h

theorem spares_keep (text : String) (o : ObjectId) (m : Machine) : m.Spares (m.keep text o).2 :=
  .of_eq rfl rfl rfl rfl rfl fun _ h => h

theorem spares_setError (thread : Nat) (index code : Int32) (m : Machine) :
    m.Spares (m.setError thread index code).2 :=
  spares_modifyRecord thread (·.setError (errorSlot index) code) m

structure Mild (m m' : Machine) : Prop extends Spares m m', Leaves m m'

theorem Spares.mild {m m' : Machine} (h : m.Spares m') (h' : m.Leaves m') : m.Mild m' where
  toSpares := h
  classObjects := h'.classObjects
  klass := h'.klass
  loaded := h'.loaded
  interned := h'.interned
  numbers := h'.numbers
  errors := h'.errors

theorem Mild.refl (m : Machine) : m.Mild m := (Spares.refl m).mild (.refl m)

theorem Mild.trans {m1 m2 m3 : Machine} (h : m1.Mild m2) (h' : m2.Mild m3) : m1.Mild m3 :=
  (h.toSpares.trans h'.toSpares).mild (h.toLeaves.trans h'.toLeaves)

theorem Mild.of_eq {m m' : Machine} (libraries : m'.libraries = m.libraries)
    (classes : m'.classes = m.classes) (initStates : m'.initStates = m.initStates)
    (lock : m'.lock = m.lock) (statics : m'.statics = m.statics)
    (classObjects : m'.classObjects = m.classObjects) (interned : m'.interned = m.interned)
    (heap : m'.heap = m.heap) (threads : m'.threads = m.threads) (numbers : m.KeepsNumbers m')
    (exitStatus : ∀ code, m.exitStatus = some code → m'.exitStatus = some code) : m.Mild m' :=
  (Spares.of_eq libraries classes initStates lock statics exitStatus).mild
    (.of_bears (.of_heap classObjects heap) libraries classes interned threads numbers)

theorem mild_note (e : Event) (m : Machine) : m.Mild (m.note e) :=
  (spares_note e m).mild (leaves_note e m)

theorem mild_setMonitor (o : ObjectId) (monitor : Monitor) (m : Machine) :
    m.Mild (m.setMonitor o monitor) :=
  (spares_setMonitor o monitor m).mild (leaves_setMonitor o monitor m)

theorem mild_modifyRecord {f : ThreadRecord → ThreadRecord} (h : ∀ r, (f r).errors = r.errors)
    (thread : Nat) (m : Machine) : m.Mild (m.modifyRecord thread f) :=
  (spares_modifyRecord thread f m).mild (leaves_modifyRecord h thread m)

theorem mild_takeInterrupt (thread : Nat) (m : Machine) : m.Mild (m.takeInterrupt thread).2 :=
  (spares_takeInterrupt thread m).mild (leaves_takeInterrupt thread m)

theorem mild_modify {f : Object → Object} (h : ∀ x, (f x).klass = x.klass) (o : ObjectId)
    (m : Machine) : m.Mild { m with heap := m.heap.modify o f } :=
  (spares_heap _ m).mild (leaves_modify h o m)

theorem mild_alloc (o : Object) (bytes : Nat) (m : Machine) : m.Mild (m.alloc o bytes).2 :=
  (spares_alloc o bytes m).mild (leaves_alloc o bytes m)

theorem mild_recordExit (code : Int32) (m : Machine) : m.Mild (m.recordExit code) :=
  (spares_recordExit code m).mild (leaves_recordExit code m)

theorem keeps_setStatic (f : Field) (v : Value) (m : Machine) : m.Keeps (m.setStatic f v) where
  libraries := rfl
  classes := rfl
  initStates := rfl
  lock := rfl
  statics k hk := by
    simp only [setStatic, Entries.get?_put]
    split
    · rfl
    · exact hk
  exitStatus _ h := h

end Machine

def Blocker.IsMild : Blocker → Prop
  | .machineLock _ => False
  | _ => True

theorem Blocker.mild_attempt {b : Blocker} (hb : b.IsMild) {m m' : Machine} {w : Wake}
    (h : b.attempt m = some (w, m')) : m.Mild m' := by
  cases b with
  | machineLock t => exact hb.elim
  | turn =>
    cases h
    exact .refl m
  | enter o t =>
    simp only [attempt] at h
    split at h
    · cases h
      exact Machine.mild_setMonitor _ _ m
    · split at h <;> cases h
      exact .refl m
  | notification o t ticket d =>
    have hk := Machine.mild_takeInterrupt t m
    simp only [attempt, leave] at h
    generalize m.takeInterrupt t = r at hk h
    obtain ⟨interrupted, m1⟩ := r
    change m.Mild m1 at hk
    have hl := hk.trans (Machine.mild_setMonitor o ((m1.monitorOf o).leave ticket) m1)
    cases interrupted
    all_goals
      dsimp only at h
      repeat' split at h
      all_goals cases h
      · exact Machine.mild_setMonitor _ _ m
      all_goals exact hl
  | retake o t count =>
    simp only [attempt, Option.map_eq_some_iff] at h
    obtain ⟨monitor, -, h⟩ := h
    cases h
    exact Machine.mild_setMonitor _ _ m
  | nap t d =>
    have hk := Machine.mild_takeInterrupt t m
    simp only [attempt] at h
    generalize m.takeInterrupt t = r at hk h
    obtain ⟨interrupted, m1⟩ := r
    change m.Mild m1 at hk
    cases interrupted
    all_goals
      dsimp only at h
      repeat' split at h
      all_goals cases h
      · exact .refl m
      all_goals exact hk

namespace Prog

def IsMild : Prog α → Prop
  | .done _ => True
  | .step f next => (∀ m : Machine, m.Mild (f m).2) ∧ ∀ b, (next b).IsMild
  | .sign x next => x.isPlain = true ∧ next.IsMild
  | .wait b next => b.IsMild ∧ ∀ w, (next w).IsMild
  | .starved => True

theorem isMild_bind {p : Prog α} {f : α → Prog β} (hp : p.IsMild) (hf : ∀ a, (f a).IsMild) :
    (p >>= f).IsMild := by
  change (p.bind f).IsMild
  induction p with
  | done a => exact hf a
  | step g next ih => exact ⟨hp.1, fun b => ih b (hp.2 b)⟩
  | sign x next ih => exact ⟨hp.1, ih hp.2⟩
  | wait b next ih => exact ⟨hp.1, fun w => ih w (hp.2 w)⟩
  | starved => trivial

theorem isMild_act {f : Machine → α × Machine} (h : ∀ m : Machine, m.Mild (f m).2) : (act f).IsMild :=
  ⟨h, fun _ => trivial⟩

theorem isMild_read (f : Machine → α) : (read f).IsMild := isMild_act Machine.Mild.refl

theorem isMild_update {f : Machine → Machine} (h : ∀ m : Machine, m.Mild (f m)) : (update f).IsMild :=
  isMild_act h

theorem isMild_await {b : Blocker} (h : b.IsMild) : (await b).IsMild := ⟨h, fun _ => trivial⟩

theorem isMild_turn : turn.IsMild := ⟨trivial, fun _ => trivial⟩

theorem isMild_note {x : Event} (h : (Sign.noted x).isPlain = true) : (note x).IsMild :=
  ⟨h, trivial⟩

end Prog

structure Thread.Akin (t t' : Thread) : Prop where
  id : t'.id = t.id
  uncaught : t'.uncaught = t.uncaught
  fatalReported : t'.fatalReported = t.fatalReported

theorem Thread.Akin.refl (t : Thread) : t.Akin t := ⟨rfl, rfl, rfl⟩

theorem Thread.Akin.trans {t1 t2 t3 : Thread} (h : t1.Akin t2) (h' : t2.Akin t3) : t1.Akin t3 :=
  ⟨h'.id.trans h.id, h'.uncaught.trans h.uncaught, h'.fatalReported.trans h.fatalReported⟩

structure Thread.Kin (t t' : Thread) : Prop extends Thread.Akin t t' where
  frames : t'.frames = t.frames

theorem Thread.Kin.akin {t t' : Thread} (h : t.Kin t') : t.Akin t' := h.toAkin

theorem Thread.Kin.refl (t : Thread) : t.Kin t := ⟨.refl t, rfl⟩

theorem Thread.Kin.trans {t1 t2 t3 : Thread} (h : t1.Kin t2) (h' : t2.Kin t3) : t1.Kin t3 :=
  ⟨h.akin.trans h'.akin, h'.frames.trans h.frames⟩

structure Thread.Alike (t t' : Thread) : Prop extends Thread.Kin t t' where
  unwound : t'.unwound = t.unwound

theorem Thread.Alike.refl (t : Thread) : t.Alike t := ⟨.refl t, rfl⟩

def CoreLibrary.Has (n : ClassName) : Prop := (library.class? n).isSome = true

instance (n : ClassName) : Decidable (CoreLibrary.Has n) :=
  inferInstanceAs (Decidable (_ = true))

namespace Exec

-- How much of the frames a computation may touch: none, the innermost one, or that one and then,
-- as the last thing, one call or return.
inductive Reach where
  | host
  | frame
  | call
  deriving DecidableEq

def Reach.before : Reach → Reach
  | .host => .host
  | .frame | .call => .frame

def Reach.Allows (r : Reach) (action : FrameM α) : Prop :=
  match r with
  | .host => False
  | .frame => action.StackOnly
  | .call => action.Gentle

inductive Realm where
  | every
  | core
  deriving DecidableEq

abbrev Known := List (ClassName × Class)

def Realm.SetsUp (z : Realm) (n : ClassName) : Prop := z = .core → CoreLibrary.Has n

def Realm.Calls (z : Realm) (known : Known) (c : Class) (m : Method) : Prop :=
  z = .core → ∃ n, (n, c) ∈ known ∧ CoreLibrary.Has n ∧ m ∈ c.methods ∧ m.name = .constructor

inductive Known.Owns (known : Known) (c : Class) (m : Method) : Prop
  | named (h : (m.owner, c) ∈ known)
  | declared {n : ClassName} (h : (n, c) ∈ known) (hm : m ∈ c.methods)

theorem Known.Owns.cons {known : Known} {c : Class} {m : Method} (h : Known.Owns known c m)
    (k : ClassName × Class) : Known.Owns (k :: known) c m := by
  cases h with
  | named h => exact .named (List.mem_cons_of_mem k h)
  | declared h hm => exact .declared (List.mem_cons_of_mem k h) hm

theorem Known.Owns.of_declaredMethod? {known : Known} {n : ClassName} {c : Class} {m : Method}
    {name : MemberName} {type : MethodType} (h : (n, c) ∈ known)
    (hm : c.declaredMethod? name type = some m) : Known.Owns known c m :=
  .declared h (List.mem_of_find?_eq_some hm)

inductive Built (e : Engine) (z : Realm) : Reach → Known → {α : Type} → Exec α → Prop where
  | pure {r : Reach} {known : Known} {α : Type} (a : α) : Built e z r known (Pure.pure a)
  | throw {r : Reach} {known : Known} {α : Type} (trap : Trap) :
      Built e z r known (MonadExcept.throw trap : Exec α)
  | bind {r : Reach} {known : Known} {α β : Type} {x : Exec α} {f : α → Exec β}
      (hx : Built e z r.before known x) (hf : ∀ a, Built e z r known (f a)) :
      Built e z r known (x >>= f)
  | get {r : Reach} {known : Known} : Built e z r known (MonadState.get : Exec Thread)
  | modify {r : Reach} {known : Known} {f : Thread → Thread} (h : ∀ t : Thread, t.Alike (f t)) :
      Built e z r known (modify f : Exec PUnit)
  | lift {r : Reach} {known : Known} {α : Type} {p : Prog α} (h : p.IsMild) :
      Built e z r known (Exec.lift p)
  | enroll {r : Reach} {known : Known} {c k : Class} (n : ClassName) (hc : (.klass, c) ∈ known)
      (hn : (n, k) ∈ known) : Built e z r known (newObject c >>= fun o => act (·.enroll n o))
  | keep {r : Reach} {known : Known} {α : Type} (c : Class) (text : String)
      {x : ObjectId → Exec α} (hx : ∀ o, Built e z r.before known (x o)) :
      Built e z r known (newObject c >>= fun o => x o >>= fun _ => act (·.keep text o))
  | report {r : Reach} {known : Known} (index code : Int32) (hz : z = .every) :
      Built e z r known (setError index code)
  | looking {r : Reach} {known : Known} {α : Type} {res : List Library → Resolving α}
      {entry : α → ClassName × Class} (h : Resolving.Finds res entry) :
      Built e z r known (act (·.resolve res))
  | resolving {r : Reach} {known : Known} {α β : Type} {res : List Library → Resolving α}
      {entry : α → ClassName × Class} {f : α → Exec β} (h : Resolving.Finds res entry)
      (hf : ∀ a, Built e z r (entry a :: known) (f a)) :
      Built e z r known (resolve res >>= f)
  | locked {r : Reach} {known : Known} {α : Type} {x : Exec α} (hx : Built e z .host known x) :
      Built e z r known (locked x)
  | setUp {r : Reach} {known : Known} {n : ClassName} {c : Class} (hc : (n, c) ∈ known)
      (hz : z.SetsUp n) : Built e z r known (e.setUp c)
  | invoke {r : Reach} {known : Known} {c : Class} {m : Method} (arguments : List Value)
      (ho : Known.Owns known c m) (hz : z.Calls known c m) : Built e z r known (invokeMethod e c m arguments)
  | recover {known : Known} {α β : Type} {x : Exec α} {f : Except Trap α → Exec β}
      (hx : Built e z .host known x) (ok : ∀ a, Built e z .host known (f (.ok a)))
      (caught : ∀ trap, trap.isCatchable = true → Built e z .host known (f (.error trap)))
      (passed : ∀ trap, trap.isCatchable = false →
        ∃ g : Thread → Thread, (∀ t : Thread, t.Alike (g t)) ∧
          f (.error trap) = (modify g : Exec PUnit) >>= fun _ => MonadExcept.throw trap) :
      Built e z .host known (attempt x >>= f)
  | frame {r : Reach} {known : Known} {α : Type} (action : FrameM α)
      (ha : r.Allows action) : Built e z r known (inFrame action)
  | enter {known : Known} {c : Class} {m : Method} (arguments : List Value)
      (ho : Known.Owns known c m) (hz : z = .every) :
      Built e z .call known (enterMethod e c m arguments)
  | leave {known : Known} (hasValue : Bool) : Built e z .call known (returnFrom hasValue)

namespace Built

variable {e : Engine} {z : Realm} {r : Reach} {known : Known}

theorem widen {x : Exec α} (h : Built e z .frame known x) : Built e z .call known x := by
  generalize hr : Reach.frame = r at h
  induction h with
  | pure a => exact .pure a
  | throw trap => exact .throw trap
  | bind hx _ _ ihf =>
    subst hr
    exact .bind hx fun a => ihf a rfl
  | get => exact .get
  | modify h => exact .modify h
  | lift h => exact .lift h
  | enroll n hc hn => exact .enroll n hc hn
  | keep c text hx _ =>
    subst hr
    exact .keep c text hx
  | report index code hz => exact .report index code hz
  | looking h => exact .looking h
  | resolving h _ ihf => exact .resolving h fun a => ihf a hr
  | locked hx _ => exact .locked hx
  | setUp hc hz => exact .setUp hc hz
  | invoke arguments ho hz => exact .invoke arguments ho hz
  | recover => cases hr
  | frame action ha =>
    subst hr
    exact .frame action ha.gentle
  | enter => cases hr
  | leave => cases hr

theorem act {f : Machine → α × Machine} (h : ∀ m : Machine, m.Mild (f m).2) :
    Built e z r known (Exec.act f) :=
  .lift (Prog.isMild_act h)

theorem read (f : Machine → α) : Built e z r known (Exec.read f) := .lift (Prog.isMild_read f)

theorem update {f : Machine → Machine} (h : ∀ m : Machine, m.Mild (f m)) :
    Built e z r known (Exec.update f) :=
  .lift (Prog.isMild_update h)

theorem await {b : Blocker} (h : b.IsMild) : Built e z r known (Exec.await b) :=
  .lift (Prog.isMild_await h)

theorem note {x : Event} (h : (Sign.noted x).isPlain = true) : Built e z r known (Exec.note x) :=
  .lift (Prog.isMild_note h)

theorem raise (cause : Cause) : Built e z r known (Exec.raise cause : Exec α) := .throw _

theorem fail (fault : Fault) : Built e z r known (Exec.fail fault : Exec α) := .throw _

theorem ofTrap (res : Except Trap α) : Built e z r known (Exec.ofTrap res) := by
  cases res with
  | ok a => exact .pure a
  | error trap => exact .throw trap

theorem ofExcept (res : Except Fault α) : Built e z r known (Exec.ofExcept res) := by
  cases res with
  | ok a => exact .pure a
  | error fault => exact .fail fault

theorem check {b : Prop} [Decidable b] {x : Exec PUnit} {k : PUnit → Exec α}
    (hx : Built e z r.before known x) (hk : ∀ u, Built e z r known (k u)) :
    Built e z r known (if b then x >>= k else k ()) := by
  split
  · exact .bind hx hk
  · exact hk ()

theorem resolve {res : List Library → Resolving α} {entry : α → ClassName × Class}
    (h : Resolving.Finds res entry) : Built e z r known (Exec.resolve res) := by
  have : Built e z r known (Exec.resolve res >>= Pure.pure) := .resolving h fun a => .pure a
  rwa [bind_pure] at this

theorem loadClass_bind {n : ClassName} {f : Class → Exec α}
    (hf : ∀ c, Built e z r ((n, c) :: known) (f c)) : Built e z r known (loadClass n >>= f) :=
  .resolving (Resolving.finds_loadClass n) hf

theorem resolveClass_bind {n : ClassName} {f : Class → Exec α}
    (hf : ∀ c, Built e z r ((n, c) :: known) (f c)) : Built e z r known (resolveClass n >>= f) := by
  rw [resolveClass, bind_assoc]
  exact .bind .get fun t => .resolving (Resolving.finds_resolveClass n _) hf

theorem resolveField_bind {f : FieldRef} {next : Class × Field → Exec α}
    (hf : ∀ a, Built e z r ((a.2.owner, a.1) :: known) (next a)) :
    Built e z r known (resolveField f >>= next) := by
  rw [resolveField, bind_assoc]
  exact .bind .get fun t => .resolving (Resolving.finds_resolveField f _) hf

theorem resolveMethod_bind {m : MethodRef} {next : Class × Method → Exec α}
    (hf : ∀ a, Built e z r ((a.2.owner, a.1) :: known) (next a)) :
    Built e z r known (resolveMethod m >>= next) := by
  rw [resolveMethod, bind_assoc]
  exact .bind .get fun t => .resolving (Resolving.finds_resolveMethod m _) hf

theorem loadClass (n : ClassName) : Built e z r known (Exec.loadClass n) :=
  .resolve (Resolving.finds_loadClass n)

theorem arrayClass (t : FieldType) : Built e z r known (Exec.arrayClass t) := by
  obtain ⟨n, h⟩ := Resolving.finds_arrayClass t
  exact .resolve h

theorem object (o : ObjectId) : Built e z r known (Exec.object o) := by
  refine .bind (.read _) fun found => ?_
  cases found with
  | some object => exact .pure object
  | none => exact .fail _

theorem classOf (o : ObjectId) : Built e z r known (Exec.classOf o) :=
  .bind (.object o) fun _ => .pure _

end Built

end Exec

end BytecodeMachine
