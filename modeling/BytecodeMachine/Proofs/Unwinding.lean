import BytecodeMachine.Proofs.Balance

namespace BytecodeMachine

variable {α β : Type}

namespace Prog

inductive Leads (env : Machine → Prop) (goal : Prog α → Prop) : Prog α → Prop
  | here {p : Prog α} (h : goal p) : Leads env goal p
  | step {β : Type} {f : Machine → β × Machine} {next : β → Prog α}
      (h : ∀ m, env m → Leads env goal (next (f m).1)) : Leads env goal (.step f next)
  | sign {x : Sign} {next : Prog α} (h : Leads env goal next) : Leads env goal (.sign x next)
  | wait {b : Blocker} {next : Wake → Prog α} (hb : ∀ m, env m → (b.attempt m).isSome = true)
      (h : ∀ m w m', env m → b.attempt m = some (w, m') → Leads env goal (next w)) :
      Leads env goal (.wait b next)

variable {env : Machine → Prop} {goal : Prog β → Prop}

theorem Leads.bind {p : Prog α} {a : α} {f : α → Prog β} (hp : p.Leads env (· = .done a))
    (hf : (f a).Leads env goal) : (p >>= f).Leads env goal := by
  change (p.bind f).Leads env goal
  induction hp with
  | here h =>
    subst h
    exact hf
  | step _ ih => exact .step ih
  | sign _ ih => exact .sign ih
  | wait hb _ ih => exact .wait hb ih

theorem Leads.trans {p q : Prog β} (hp : p.Leads env (· = q)) (hq : q.Leads env goal) :
    p.Leads env goal := by
  induction hp with
  | here h =>
    subst h
    exact hq
  | step _ ih => exact .step ih
  | sign _ ih => exact .sign ih
  | wait hb _ ih => exact .wait hb ih

theorem Leads.restrict {env' : Machine → Prop} {p : Prog β} (hp : p.Leads env goal)
    (h : ∀ m, env' m → env m) : p.Leads env' goal := by
  induction hp with
  | here hg => exact .here hg
  | step _ ih => exact .step fun m hm => ih m (h m hm)
  | sign _ ih => exact .sign ih
  | wait hb _ ih => exact .wait (fun m hm => hb m (h m hm)) fun m w m' hm => ih m w m' (h m hm)

theorem Leads.exists_of_meets {p : Prog α} {a : α} {k : Contract} {Q : α → Scene → Prop} {s : Scene}
    (hp : p.Leads (fun _ => True) (· = .done a)) (hr : ∀ s, k.rely s s) (h : p.Meets k Q s) :
    ∃ s', Q a s' := by
  induction hp generalizing s with
  | here hd =>
    subst hd
    exact ⟨s, h⟩
  | step _ ih => exact ih s.machine trivial (h s (hr s)).2
  | sign _ ih => exact ih (h s (hr s)).2
  | wait hb _ ih =>
    obtain ⟨⟨w, m⟩, hw⟩ := Option.isSome_iff_exists.1 (hb s.machine trivial)
    exact ih s.machine w m trivial hw (h s w m (hr s) hw).2

theorem Leads.before {p q : Prog α} (hp : p.Leads env (· = q)) (f : α → Prog β) :
    (p >>= f).Leads env (· = q >>= f) := by
  change (p.bind f).Leads env (· = q.bind f)
  induction hp with
  | here h => exact .here (congrArg (Prog.bind · f) h)
  | step _ ih => exact .step ih
  | sign _ ih => exact .sign ih
  | wait hb _ ih => exact .wait hb ih

end Prog

namespace Exec

def Yields (env : Machine → Prop) (x : Exec α) (t : Thread) (r : Except Trap α) (t' : Thread) :
    Prop :=
  (x.on t).Leads env (· = .done (r, t'))

def LeadsTo (env : Machine → Prop) (x : Exec α) (t : Thread) (y : Exec α) (t' : Thread) : Prop :=
  (x.on t).Leads env (· = y.on t')

variable {env : Machine → Prop} {t t1 t2 : Thread}

theorem Yields.leadsTo {x : Exec α} {f : α → Exec β} {y : Exec β} {a : α}
    (hx : x.Yields env t (.ok a) t1) (hf : (f a).LeadsTo env t1 y t2) :
    (x >>= f).LeadsTo env t y t2 :=
  Prog.Leads.bind hx hf

theorem Yields.bind {x : Exec α} {f : α → Exec β} {a : α} {r : Except Trap β}
    (hx : x.Yields env t (.ok a) t1) (hf : (f a).Yields env t1 r t2) :
    (x >>= f).Yields env t r t2 :=
  Prog.Leads.bind hx hf

theorem LeadsTo.yields {x y : Exec α} {r : Except Trap α} (hx : x.LeadsTo env t y t1)
    (hy : y.Yields env t1 r t2) : x.Yields env t r t2 :=
  Prog.Leads.trans hx hy

theorem Yields.attempt {x : Exec α} {r : Except Trap α} (hx : x.Yields env t r t1) :
    (attempt x).Yields env t (.ok r) t1 :=
  Prog.Leads.bind hx (.here rfl)

theorem Yields.bind_error {x : Exec α} {f : α → Exec β} {trap : Trap}
    (hx : x.Yields env t (.error trap) t1) : (x >>= f).Yields env t (.error trap) t1 :=
  Prog.Leads.bind hx (.here rfl)

theorem LeadsTo.bind {x y : Exec α} (hx : x.LeadsTo env t y t1) (f : α → Exec β) :
    (x >>= f).LeadsTo env t (y >>= f) t1 :=
  Prog.Leads.before hx _

theorem LeadsTo.attempt {x y : Exec α} (hx : x.LeadsTo env t y t1) :
    (attempt x).LeadsTo env t (attempt y) t1 :=
  Prog.Leads.before hx _

theorem LeadsTo.trans {x y z : Exec α} (h : x.LeadsTo env t y t1) (h' : y.LeadsTo env t1 z t2) :
    x.LeadsTo env t z t2 :=
  Prog.Leads.trans h h'

theorem LeadsTo.restrict {env' : Machine → Prop} {x y : Exec α} (h : x.LeadsTo env t y t1)
    (henv : ∀ m, env' m → env m) : x.LeadsTo env' t y t1 :=
  Prog.Leads.restrict h henv

theorem leadsTo_refl (x : Exec α) (t : Thread) : x.LeadsTo env t x t := .here rfl

theorem yields_get (t : Thread) : (MonadState.get : Exec Thread).Yields env t (.ok t) t := .here rfl

theorem yields_modify (f : Thread → Thread) (t : Thread) :
    (modify f : Exec PUnit).Yields env t (.ok ()) (f t) := .here rfl

theorem yields_pure (a : α) : (pure a : Exec α).Yields env t (.ok a) t := .here rfl

theorem yields_act {f : Machine → α × Machine} {a : α} (h : ∀ m, env m → (f m).1 = a) :
    (act f).Yields env t (.ok a) t :=
  .step fun m hm => .here (by rw [← h m hm]; rfl)

theorem yields_read {f : Machine → α} {a : α} (h : ∀ m, env m → f m = a) :
    (read f).Yields env t (.ok a) t :=
  yields_act h

theorem yields_turn : turn.Yields env t (.ok ()) t :=
  .wait (fun _ _ => rfl) fun _ _ _ _ _ => .here rfl

theorem yields_resolve {res : List Library → Resolving α} {a : α}
    (h : ∀ m, env m → (m.resolve res).1 = .ok a) : (resolve res).Yields env t (.ok a) t :=
  (yields_act h).bind (yields_pure a)

theorem yields_inFrame {x : FrameM α} {f f' : Frame} {rest : List Frame} {r : Except Trap α}
    (hf : t.frames = f :: rest) (hx : x.run.run f = (r, f')) :
    (inFrame x).Yields env t r { t with frames := f' :: rest } := by
  refine (yields_get t).bind ?_
  rw [hf]
  dsimp only
  rw [hx]
  refine (yields_modify _ t).bind ?_
  cases r with
  | ok a => exact .here rfl
  | error trap => exact .here rfl

end Exec

def Handler.Covers (h : Handler) (pc : Nat) : Prop := h.start ≤ pc ∧ pc < h.stop

instance (h : Handler) (pc : Nat) : Decidable (h.Covers pc) := instDecidableAnd

def Handler.takes (loaded : ClassName → Class) (c : Class) (h : Handler) : Bool :=
  match h.catchType with
  | none => true
  | some n => c.isAssignable (loaded n)

namespace Frame

def trapped (stack : List Value) (f : Frame) : Frame := { f.stepped with stack := stack }

def covering (f : Frame) : List Handler :=
  ((f.code?.map (·.handlers)).getD []).filter fun h => h.Covers f.lastPc

theorem handlersAt_eq_covering (f : Frame) :
    (f.code?.map (·.handlersAt f.lastPc)).getD [] = f.covering := by
  unfold covering
  cases f.code? with
  | none => rfl
  | some code =>
    refine List.filter_congr fun h _ => ?_
    rw [Bool.eq_iff_iff, Bool.and_eq_true, decide_eq_true_eq, decide_eq_true_eq, decide_eq_true_eq]
    rfl

def cleared (f : Frame) : Frame := { f with tossed := none }

def handler? (loaded : ClassName → Class) (c : Class) (f : Frame) : Option Handler :=
  f.covering.find? (·.takes loaded c)

-- The catch types up to the one that takes the object, or all of them.
def tried (loaded : ClassName → Class) (c : Class) (f : Frame) : List ClassName :=
  among f.covering
where
  among : List Handler → List ClassName
    | [] => []
    | h :: rest => h.catchType.toList ++ if h.takes loaded c then [] else among rest

end Frame

structure Machine.Steady (thread : Nat) (o : ObjectId) (c : Class) (loaded : ClassName → Class)
    (tried : List ClassName) (m : Machine) : Prop where
  stays : m.shouldTerminate thread = false
  class_eq : (m.heap.get? o).map (·.klass) = some c
  loads : ∀ n ∈ tried, (m.resolve fun libraries => .loadClass libraries n).1 = .ok (loaded n)

namespace Exec

variable {env : Machine → Prop} {t : Thread} {o : ObjectId} {c : Class}
  {loaded : ClassName → Class}

theorem yields_classOf (h : ∀ m, env m → (m.heap.get? o).map (·.klass) = some c) :
    (classOf o).Yields env t (.ok c) t := by
  refine .step fun m hm => ?_
  obtain ⟨object, ho, rfl⟩ := Option.map_eq_some_iff.1 (h m hm)
  dsimp only
  rw [ho]
  exact .here rfl

theorem yields_findHandler {handlers : List Handler}
    (h : ∀ m, env m → ∀ n ∈ Frame.tried.among loaded c handlers,
      (m.resolve fun libraries => .loadClass libraries n).1 = .ok (loaded n)) :
    (findHandler c handlers).Yields env t
      (.ok ((handlers.find? (·.takes loaded c)).map (·.target))) t := by
  induction handlers with
  | nil => exact .here rfl
  | cons g rest ih =>
    unfold findHandler
    split
    · rename_i hn
      have htakes : g.takes loaded c = true := by simp only [Handler.takes, hn]
      rw [List.find?_cons_of_pos htakes]
      exact .here rfl
    · rename_i n hn
      have htakes : g.takes loaded c = c.isAssignable (loaded n) := by simp only [Handler.takes, hn]
      have hload : ∀ m, env m → (m.resolve fun libraries => .loadClass libraries n).1 =
          .ok (loaded n) := fun m hm => h m hm n (by simp [Frame.tried.among, hn])
      refine (yields_act hload).bind ?_
      dsimp only
      cases ha : c.isAssignable (loaded n) with
      | true =>
        rw [List.find?_cons_of_pos (htakes.trans ha), if_pos rfl]
        exact yields_pure _
      | false =>
        rw [List.find?_cons_of_neg (by simp [htakes, ha]), if_neg Bool.false_ne_true]
        exact ih fun m hm k hk => h m hm k (by simp [Frame.tried.among, htakes, ha, hk])

def toss (e : Engine) (o : ObjectId) : Exec Unit := do
  match (← get).frames with
  | [] => uncaught e o
  | b :: rest => modify fun t => { t with frames := { b with tossed := some o } :: rest }

section Dispatch

variable {e : Engine} {g : Frame} {h : Handler}

theorem dispatch_caught {rest : Frames} (hf : t.frames = g :: rest) (hg : g.isBlank = false)
    (hc : ∀ m, env m → (m.heap.get? o).map (·.klass) = some c)
    (hl : ∀ m, env m → ∀ n ∈ g.tried loaded c,
      (m.resolve fun libraries => .loadClass libraries n).1 = .ok (loaded n))
    (hh : g.handler? loaded c = some h) :
    (dispatch e o).Yields env t (.ok ())
      { t with frames := { g with stack := [.object o], pc := h.target } :: rest, unwound := [] } := by
  unfold dispatch
  refine Yields.bind (yields_get t) ?_
  rw [hf]
  dsimp only
  rw [hg, if_neg Bool.false_ne_true, g.handlersAt_eq_covering]
  refine (yields_classOf hc).bind ((yields_findHandler hl).bind ?_)
  rw [show g.covering.find? (·.takes loaded c) = some h from hh]
  exact .sign (.here rfl)

theorem dispatch_left {rest : Frames} (hf : t.frames = g :: rest) (hg : g.isBlank = false)
    (hc : ∀ m, env m → (m.heap.get? o).map (·.klass) = some c)
    (hl : ∀ m, env m → ∀ n ∈ g.tried loaded c,
      (m.resolve fun libraries => .loadClass libraries n).1 = .ok (loaded n))
    (hh : g.handler? loaded c = none) :
    (dispatch e o).LeadsTo env t (toss e o)
      { t with frames := rest, unwound := g.describe :: t.unwound } := by
  unfold dispatch
  refine Yields.leadsTo (yields_get t) ?_
  rw [hf]
  dsimp only
  rw [hg, if_neg Bool.false_ne_true, g.handlersAt_eq_covering]
  refine (yields_classOf hc).leadsTo ((yields_findHandler hl).leadsTo ?_)
  rw [show g.covering.find? (·.takes loaded c) = none from hh]
  refine Yields.leadsTo (yields_modify _ t) ?_
  cases rest with
  | nil => exact Yields.leadsTo (yields_modify _ _) (leadsTo_refl _ _)
  | cons b rest => exact leadsTo_refl _ _

end Dispatch

def orAbort (x : Exec Unit) (limit : Nat) : Exec Unit := do
  match ← attempt x with
  | .ok () => pure ()
  | .error other => abort other limit

theorem handleTrap_throw (e : Engine) (o : ObjectId) (limit : Nat) :
    handleTrap e (.throw o) limit = orAbort (dispatch e o) limit := rfl

theorem orAbort_yields {x : Exec Unit} {t' : Thread} (hx : x.Yields env t (.ok ()) t')
    (limit : Nat) : (orAbort x limit).Yields env t (.ok ()) t' :=
  hx.attempt.bind (yields_pure ())

theorem orAbort_leadsTo {x y : Exec Unit} {t' : Thread} (hx : x.LeadsTo env t y t')
    (limit : Nat) : (orAbort x limit).LeadsTo env t (orAbort y limit) t' :=
  hx.attempt.bind _

section Run

variable {e : Engine} {b : Frame} {rest : Frames} {limit : Nat}

theorem step_tossed (hf : t.frames = { b with tossed := some o } :: rest) :
    (step e).Yields env t (.error (.throw o)) { t with frames := b.cleared :: rest } := by
  have hfetch : fetch.Yields env t (.error (.throw o)) { t with frames := b.cleared :: rest } := by
    unfold fetch
    refine (yields_get t).bind ?_
    rw [hf]
    exact (yields_modify _ t).bind (.here rfl)
  exact hfetch.bind_error

theorem yields_note (e : Event) : (note e).Yields env t (.ok ()) t :=
  .sign (.here rfl)

theorem yields_warn (m : Method) (steps : Nat) :
    (fetch.warn m steps).Yields env t (.ok ()) t := by
  have hwarn (every : Nat) : (do
      if 0 < every && steps % every = 0 then
        let name := (← get).name
        note (.manySteps m.ref steps name) : Exec Unit).Yields env t (.ok ()) t := by
    split
    · exact (yields_get t).bind (yields_note _)
    · exact yields_pure ()
  exact .step fun machine _ => hwarn machine.settings.stepWarning

theorem yields_throw {f : Frame} {a : Activation} {stack : List Value} (e : Engine)
    (hf : t.frames = f :: rest) (hn : f.tossed = none) (ha : f.activation = some a)
    (hi : f.instruction? f.pc = some .throw) (hs : f.stack = .object o :: stack) :
    (step e).Yields env t (.error (.throw o)) { t with frames := f.trapped stack :: rest } := by
  obtain ⟨activation, locals, _, pc, lastPc, tossed, steps⟩ := f
  cases hn
  cases ha
  cases hs
  let f : Frame := ⟨some a, locals, .object o :: stack, pc, lastPc, none, steps⟩
  have hfetch : fetch.Yields env t (.ok (a.method, pc, .throw))
      { t with frames := f.stepped :: rest } := by
    unfold fetch
    refine (yields_get t).bind ?_
    rw [hf]
    dsimp only at hi ⊢
    rw [hi]
    exact (yields_modify _ t).bind ((yields_warn _ _).bind (yields_pure _))
  have hpop : (inFrame (.popObject "athrow")).Yields env { t with frames := f.stepped :: rest }
      (.ok o) { t with frames := f.trapped stack :: rest } := yields_inFrame rfl rfl
  have hthrow : (execute e .throw).Yields env { t with frames := f.stepped :: rest }
      (.error (.throw o)) { t with frames := f.trapped stack :: rest } := by
    unfold execute
    exact hpop.bind (.here rfl)
  exact hfetch.bind ((yields_note _).bind hthrow)

theorem run_tossed (hf : t.frames = { b with tossed := some o } :: rest) (hd : limit < t.depth)
    (hs : ∀ m, env m → m.shouldTerminate t.id = false) :
    (run e limit).LeadsTo env t (do handleTrap e (.throw o) limit; e.run limit)
      { t with frames := b.cleared :: rest } := by
  unfold run
  refine (yields_get t).leadsTo ?_
  rw [if_neg (by rw [Thread.isWithin_iff]; omega)]
  refine yields_turn.leadsTo ?_
  have hstop : shouldTerminate.Yields env t (.ok false) t := (yields_get t).bind (yields_read hs)
  refine hstop.leadsTo ?_
  rw [if_neg Bool.false_ne_true]
  exact (step_tossed hf).attempt.leadsTo (.sign (leadsTo_refl _ _))

end Run

theorem cleared_modifyHead (g : Frame) (rest : Frames) :
    (g :: rest).modifyHead Frame.cleared = g.cleared :: rest := rfl

section Unwind

variable {thread : Nat} {names : List ClassName} {inner rest : Frames} {g : Frame} {limit : Nat}

theorem handleTrap_left {e : Engine} (hf : t.frames = g.cleared :: rest) (hb : g.isBlank = false)
    (hh : g.handler? loaded c = none) (hn : g.tried loaded c ⊆ names) :
    (handleTrap e (.throw o) limit).LeadsTo (Machine.Steady thread o c loaded names) t
      (orAbort (toss e o) limit)
      { t with frames := rest, unwound := g.describe :: t.unwound } := by
  rw [handleTrap_throw]
  exact orAbort_leadsTo (dispatch_left (g := g.cleared) hf hb
    (fun m (hm : m.Steady thread o c loaded names) => hm.class_eq)
    (fun m hm n hk => hm.loads n (hn hk)) hh) limit

theorem toss_below {e : Engine} {b : Frame} (hf : t.frames = b :: rest) :
    (orAbort (toss e o) limit).Yields env t (.ok ())
      { t with frames := { b with tossed := some o } :: rest } := by
  refine orAbort_yields ((yields_get t).bind ?_) limit
  rw [hf]
  exact yields_modify _ t

theorem toss_out {e : Engine} (hf : t.frames = []) :
    (orAbort (toss e o) limit).LeadsTo env t (orAbort (uncaught e o) limit) t := by
  refine orAbort_leadsTo ((yields_get t).leadsTo ?_) limit
  rw [hf]
  exact leadsTo_refl _ _

theorem tried_subset {f : Frame} {fs : Frames} (hf : f ∈ fs) :
    f.tried loaded c ⊆ fs.flatMap (Frame.tried loaded c) :=
  fun _ hn => List.mem_flatMap.2 ⟨f, hf, hn⟩

theorem unwind_past (hd : limit ≤ rest.length)
    (hf : t.frames = (inner ++ g :: rest).modifyHead Frame.cleared)
    (hi : ∀ f ∈ inner, f.isBlank = false ∧ f.handler? loaded c = none ∧ f.tried loaded c ⊆ names)
    (n : Nat) :
    (do
      handleTrap (.bounded (n + inner.length)) (.throw o) limit
      (Engine.bounded (n + inner.length)).run limit).LeadsTo (Machine.Steady t.id o c loaded names) t
      (do
        handleTrap (.bounded n) (.throw o) limit
        (Engine.bounded n).run limit)
      { t with
        frames := g.cleared :: rest
        unwound := (inner.map Frame.describe).reverse ++ t.unwound } := by
  induction inner generalizing t with
  | nil =>
    obtain ⟨id, name, frames, unwound, trace, uncaught, inHandler, reported⟩ := t
    cases hf
    exact leadsTo_refl _ _
  | cons f inner ih =>
    obtain ⟨hb, hh, hn⟩ := hi f List.mem_cons_self
    obtain ⟨b, outer, hbo⟩ : ∃ b outer, inner ++ g :: rest = b :: outer := by
      cases inner with
      | nil => exact ⟨g, rest, rfl⟩
      | cons b inner => exact ⟨b, _, rfl⟩
    have hlen : rest.length ≤ outer.length := by
      have := congrArg List.length hbo
      simp only [List.length_append, List.length_cons] at this
      omega
    rw [List.cons_append, hbo] at hf
    refine LeadsTo.trans ((handleTrap_left hf hb hh hn).bind _) ((toss_below rfl).leadsTo ?_)
    refine LeadsTo.trans (run_tossed (e := .bounded (n + inner.length)) rfl ?_ fun m hm => hm.stays) ?_
    · simp only [Thread.depth, List.length_cons]
      omega
    · rw [← cleared_modifyHead, ← hbo, List.map_cons, List.reverse_cons, List.append_assoc]
      let left : Thread :=
        { t with
          frames := (inner ++ g :: rest).modifyHead Frame.cleared
          unwound := f.describe :: t.unwound }
      exact ih (t := left) rfl fun f hf => hi f (List.mem_cons_of_mem _ hf)

theorem handleTrap_caught {e : Engine} {h : Handler} (hf : t.frames = g.cleared :: rest)
    (hb : g.isBlank = false) (hh : g.handler? loaded c = some h) (hn : g.tried loaded c ⊆ names) :
    (handleTrap e (.throw o) limit).Yields (Machine.Steady thread o c loaded names) t (.ok ())
      { t with
        frames := { g.cleared with stack := [.object o], pc := h.target } :: rest
        unwound := [] } := by
  rw [handleTrap_throw]
  exact orAbort_yields (dispatch_caught hf hb
    (fun m (hm : m.Steady thread o c loaded names) => hm.class_eq)
    (fun m hm n hk => hm.loads n (hn hk)) hh) limit

end Unwind

def unwind (e : Engine) (o : ObjectId) (limit : Nat) : Exec Unit := do
  handleTrap e (.throw o) limit
  e.run limit

def afterStep (e : Engine) (limit : Nat) : Except Trap Unit → Exec Unit
  | .ok () => e.run limit
  | .error trap => do
      pass (.trapped trap)
      match ← attempt (handleTrap.thrown e trap) with
      | .ok o => unwind e o limit
      | .error other =>
          abort other limit
          e.run limit

theorem run_above (e : Engine) {limit : Nat} (h : limit < t.depth) :
    (run e limit).on t =
      (do
        turn
        if ← shouldTerminate then
          abort .exit limit
        else
          afterStep e limit (← attempt (step e))).on t := by
  have after (r : Except Trap Unit) : (do
      match r with
      | .ok () => pure ()
      | .error trap =>
          pass (.trapped trap)
          handleTrap e trap limit
      e.run limit : Exec Unit) = afterStep e limit r := by
    cases r with
    | ok _ => rfl
    | error trap =>
      simp only [afterStep, handleTrap, bind_assoc]
      refine bind_congr fun _ => bind_congr fun r => ?_
      cases r with
      | ok o => rfl
      | error other => rfl
  change (Bind.bind (MonadState.get : Exec Thread) _).on t = _
  change (ite _ _ _ : Exec Unit).on t = _
  rw [if_neg (by rw [Thread.isWithin_iff]; omega)]
  refine congrFun (bind_congr (m := Exec) fun _ => bind_congr fun stop => ?_) t
  cases stop with
  | true => rfl
  | false => exact bind_congr after

structure Unwinds (bound : Nat) (o : ObjectId) (above below : Frames) (t : Thread) : Prop where
  caught : ∀ {n : Nat} {c : Class} {loaded : ClassName → Class} {inner outer : Frames} {g : Frame}
    {h : Handler}, bound = n + inner.length → above = inner ++ g :: outer →
    (∀ f ∈ inner, f.handler? loaded c = none) → g.handler? loaded c = some h →
    (unwind (.bounded bound) o below.length).LeadsTo
      (Machine.Steady t.id o c loaded ((inner ++ [g]).flatMap (Frame.tried loaded c))) t
      ((Engine.bounded n).run below.length)
      { t with
        frames :=
          { g with stack := [.object o], pc := h.target, tossed := none } :: outer ++ below
        unwound := [] }
  handed : ∀ {n : Nat} {c : Class} {loaded : ClassName → Class} {b : Frame} {rest : Frames},
    bound = n + above.length → below = b :: rest → (∀ f ∈ above, f.handler? loaded c = none) →
    (unwind (.bounded bound) o below.length).Yields
      (Machine.Steady t.id o c loaded (above.flatMap (Frame.tried loaded c))) t (.ok ())
      { t with
        frames := { b with tossed := some o } :: rest
        unwound := (above.map Frame.describe).reverse ++ t.unwound }
  reported : ∀ {n : Nat} {c : Class} {loaded : ClassName → Class},
    bound = n + above.length → below = [] → (∀ f ∈ above, f.handler? loaded c = none) →
    (unwind (.bounded bound) o 0).LeadsTo
      (Machine.Steady t.id o c loaded (above.flatMap (Frame.tried loaded c))) t
      (do
        orAbort (uncaught (.bounded (n + 1)) o) 0
        (Engine.bounded (n + 1)).run 0)
      { t with
        frames := []
        unwound := (above.map Frame.describe).reverse ++ t.unwound }
  once : ∀ (n : Nat) (t' : Thread) (s : Scene), t'.frames = [] →
    (orAbort (uncaught (.bounded (n + 1)) o) 0).Meets (.free t'.id) t' (fun r t'' _ =>
      r = .ok () → ((Engine.bounded (n + 1)).run 0).on t'' = .done (.ok (), t'')) s

section Exact

variable {bound : Nat} {above below : Frames}

theorem run_within (e : Engine) {limit : Nat} (h : t.depth ≤ limit) :
    (run e limit).on t = .done (.ok (), t) := by
  change (Bind.bind (MonadState.get : Exec Thread) _).on t = _
  change (ite _ _ _ : Exec Unit).on t = _
  rw [if_pos (Thread.isWithin_iff.2 h)]
  rfl

theorem unwind_above {limit n : Nat} (hd : limit ≤ below.length) (hne : above ≠ [])
    (hb : ∀ f ∈ above, f.isBlank = false) (hi : ∀ f ∈ above, f.handler? loaded c = none)
    (hf : t.frames = (above ++ below).modifyHead Frame.cleared) :
    (unwind (.bounded (n + above.length)) o limit).LeadsTo
      (Machine.Steady t.id o c loaded (above.flatMap (Frame.tried loaded c))) t
      (do
        orAbort (toss (.bounded (n + 1)) o) limit
        (Engine.bounded (n + 1)).run limit)
      { t with frames := below, unwound := (above.map Frame.describe).reverse ++ t.unwound } := by
  obtain ⟨inner, g, rfl⟩ := (List.eq_nil_or_concat' above).resolve_left hne
  have hlen : n + (inner ++ [g]).length = n + 1 + inner.length := by
    rw [List.length_append, List.length_singleton]
    omega
  rw [List.append_assoc, List.singleton_append] at hf
  rw [hlen, List.map_append, List.reverse_append]
  refine LeadsTo.trans (unwind_past hd hf (fun f hf => ?_) (n + 1)) ?_
  · have hm := List.mem_append_left [g] hf
    exact ⟨hb f hm, hi f hm, tried_subset hm⟩
  · have hm : g ∈ inner ++ [g] := List.mem_append_right inner (List.mem_singleton_self g)
    exact (handleTrap_left rfl (hb g hm) (hi g hm) (tried_subset hm)).bind _

theorem fails_after (x : Exec Unit) (trap : Trap) {i : Nat} {s : Scene} :
    (x >>= fun _ => throw trap : Exec Unit).Meets (.free i) t (fun r _ _ => r ≠ .ok ()) s := by
  refine meets_bind.2 (meets_free (fun r t' s' => ?_) x)
  cases r <;> exact nofun

theorem abort_fails (trap : Trap) (limit : Nat) (i : Nat) (s : Scene) :
    (abort trap limit).Meets (.free i) t (fun r _ _ => r ≠ .ok ()) s := by
  have fatal (fault : Fault) :
      (abort.abortFatal limit fault).Meets (.free i) t (fun r _ _ => r ≠ .ok ()) s := by
    unfold abort.abortFatal
    rw [meets_bind, meets_modify, after_ok]
    split
    · exact fails_after _ _
    · exact nofun
  cases trap with
  | throw o => exact nofun
  | raise cause => exact fatal _
  | fatal fault => exact fatal fault
  | exit =>
    unfold abort
    dsimp only
    split
    · exact fails_after _ _
    · exact nofun

theorem uncaught_once (n : Nat) (o : ObjectId) (t : Thread) (s : Scene) (hf : t.frames = []) :
    (orAbort (uncaught (.bounded (n + 1)) o) 0).Meets (.free t.id) t (fun r t' _ =>
      r = .ok () → ((Engine.bounded (n + 1)).run 0).on t' = .done (.ok (), t')) s := by
  have hb : Reporting (.bounded (n + 1)) (uncaught (.bounded (n + 1)) o) := .uncaught o
  refine meets_bind.2 (meets_attempt.2 ?_)
  refine (hb.frames (Engine.balanced_bounded _) t t.id s).mono fun r t' s' h => ?_
  rw [after_ok]
  cases r with
  | ok _ =>
    intro _
    exact run_within _ (by rw [Thread.depth, h, hf]; exact Nat.le_refl 0)
  | error other => exact (abort_fails other 0 t.id s').mono fun r _ _ hr hok => absurd hok hr

theorem unwinds (hne : above ≠ []) (hb : ∀ f ∈ above, f.isBlank = false)
    (hf : t.frames = (above ++ below).modifyHead Frame.cleared) : Unwinds bound o above below t where
  caught := by
    intro n c loaded inner outer g h hn hs hi hg
    subst hn hs
    rw [List.append_assoc, List.cons_append] at hf
    refine LeadsTo.trans (unwind_past ?_ hf (fun f hf => ?_) n) ?_
    · rw [List.length_append]
      omega
    · exact ⟨hb f (List.mem_append_left _ hf), hi f hf, tried_subset (List.mem_append_left _ hf)⟩
    · have hm : g ∈ inner ++ [g] := List.mem_append_right inner (List.mem_singleton_self g)
      refine (handleTrap_caught rfl (hb g (by simp)) hg (tried_subset hm)).leadsTo ?_
      exact leadsTo_refl _ _
  handed := by
    intro n c loaded b rest hn hr hi
    subst hn hr
    refine LeadsTo.yields (unwind_above (Nat.le_refl _) hne hb hi hf) ((toss_below rfl).bind ?_)
    exact .here (run_within _ (Nat.le_refl _))
  reported := by
    intro n c loaded hn hr hi
    subst hn hr
    exact LeadsTo.trans (unwind_above (Nat.le_refl _) hne hb hi hf) ((toss_out rfl).bind _)
  once := fun n t' s hf => uncaught_once n o t' s hf

end Exact

end Exec

theorem Exec.Stepped.trapped {t t' : Thread} {f : Frame} {rest : Frames} {trap : Trap}
    (h : Stepped t (.error trap) t') (hf : t.frames = f :: rest) (hn : f.tossed = none)
    (ht : trap.isCatchable = true) :
    ∃ stack, t'.frames = f.trapped stack :: rest := by
  cases h with
  | called _ _ hs _ hc =>
    rw [hs f rest hf hn] at hc
    exact hc.error.resolve_right fun h => absurd ht (by rw [h.1]; exact Bool.false_ne_true)
  | unfetched _ hr _ _ hs =>
    cases hr
    exact absurd ht (by rw [hs f rest hf hn]; exact Bool.false_ne_true)

namespace Engine

open Exec

theorem unwinding_exact (bound : Nat) (t : Thread) (s : Scene) (top : Frame)
    (above below : Frames) (hf : t.frames = top :: above ++ below) (ht : top.tossed = none)
    (hb : ∀ f ∈ top :: above, f.isBlank = false) :
    ((bounded (bound + 1)).run below.length).on t =
      (do
        turn
        if ← shouldTerminate then
          abort .exit below.length
        else
          afterStep (bounded bound) below.length (← attempt (step (bounded bound)))).on t ∧
    (step (bounded bound)).Meets (.free t.id) t (fun r t1 s1 =>
      ∀ trap, r = .error trap → trap.isCatchable = true → ∃ stack,
        t1.frames = top.trapped stack :: above ++ below ∧
        (handleTrap.thrown (bounded bound) trap).Meets (.free t.id) t1 (fun r t2 _ =>
          (∀ o, trap = .throw o → r = .ok o ∧ t2 = t1) ∧
          ∀ o, r = .ok o →
            t2.id = t.id ∧ t2.frames = t1.frames ∧
            Unwinds bound o (top.trapped stack :: above) below t2) s1) s := by
  refine ⟨run_above _ (by rw [Thread.depth, hf, List.length_append, List.length_cons]; omega), ?_⟩
  have he := balanced_bounded bound
  refine (step_stepped he).mono fun r t1 s1 h1 trap hr hc => ?_
  subst hr
  obtain ⟨stack, hf1⟩ := h1.trapped (f := top) hf ht hc
  refine ⟨stack, hf1, ?_⟩
  have blank : ∀ f ∈ top.trapped stack :: above, f.isBlank = false := by
    intro f hm
    rcases List.mem_cons.1 hm with rfl | hm
    · exact hb top List.mem_cons_self
    · exact hb f (List.mem_cons_of_mem _ hm)
  have clear : (top.trapped stack).cleared = top.trapped stack := by
    rw [Frame.cleared, ← ht]
    rfl
  have next {t2 : Thread} (h2 : t1.Kin t2) (o : ObjectId) :
      t2.id = t.id ∧ t2.frames = t1.frames ∧
        Unwinds bound o (top.trapped stack :: above) below t2 := by
    refine ⟨h2.id.trans h1.akin.id, h2.frames, unwinds (List.cons_ne_nil _ _) blank (h2.frames.trans (hf1.trans ?_))⟩
    change _ = (top.trapped stack).cleared :: _
    rw [clear]
  cases trap with
  | throw o =>
    refine meets_pure.2 ⟨fun o' h => ?_, fun o' _ => next (.refl t1) o'⟩
    cases h
    exact ⟨rfl, rfl⟩
  | fatal fault => cases hc
  | exit => cases hc
  | raise cause =>
    have hk : Built (bounded bound) .every .host []
        (handleTrap.thrown (bounded bound) (.raise cause)) := .thrown _
    exact (hk.kin he t1 t.id s1).mono fun r t2 s2 h2 => ⟨fun _ h => by { cases h }, fun o _ => next h2 o⟩

def throwableClass : Class := .start .throwable none [] none .plain .regular

def stringClass : Class := .start .string none [] none .plain .regular

def loadedClass (n : ClassName) : Class := if n = .string then stringClass else throwableClass

def runningFrame (code : Code) : Frame :=
  { Frame.blank with
    activation := some ⟨throwableClass, { returning with code := some code }⟩ }

def throwingFrame : Frame :=
  { runningFrame ⟨0, #[.throw], [⟨1, 2, 0, none⟩], []⟩ with stack := [.object ⟨0⟩] }

-- The first entry begins after the call, the second one is for strings, and the last comes too late.
def catchingFrame : Frame :=
  { runningFrame ⟨0, #[.nop, .nop, .nop, .returnVoid],
      [⟨2, 4, 0, none⟩, ⟨0, 2, 0, some .string⟩, ⟨0, 2, 3, some .throwable⟩, ⟨0, 4, 0, none⟩], []⟩ with
    pc := 2
    lastPc := 1 }

def steadyMachine : Machine :=
  { Machine.create [] .standard .standard .sound .sound (.ofVerbosity none) with
    classes := [(.string, stringClass), (.throwable, throwableClass)]
    heap := ⟨#[.instanceOf throwableClass]⟩ }

theorem steady_steadyMachine {loaded : ClassName → Class} {tried : List ClassName}
    (h : ∀ n ∈ tried, steadyMachine.classes.get? n = some (loaded n)) :
    steadyMachine.Steady 1 ⟨0⟩ throwableClass loaded tried where
  stays := rfl
  class_eq := rfl
  loads n hn := by simp [Machine.resolve, Resolving.loadClass, ClassTable.load, h n hn]

theorem takes_throwable (start stop target : Nat) :
    (⟨start, stop, target, some .throwable⟩ : Handler).takes loadedClass throwableClass = true := by
  have hloaded : loadedClass .throwable = throwableClass := if_neg (by decide)
  simp [Handler.takes, hloaded, Class.isAssignable, Class.reaches, throwableClass, Class.start]

theorem takes_string (start stop target : Nat) :
    (⟨start, stop, target, some .string⟩ : Handler).takes loadedClass throwableClass = false := by
  have hloaded : loadedClass .string = stringClass := if_pos rfl
  have hne : ClassName.throwable ≠ .string := by decide
  simp [Handler.takes, hloaded, Class.isAssignable, hne, Class.above, Class.enqueue, Class.reaches,
    throwableClass, stringClass, Class.start]

theorem covering_catchingFrame : catchingFrame.covering =
    [⟨0, 2, 0, some .string⟩, ⟨0, 2, 3, some .throwable⟩, ⟨0, 4, 0, none⟩] := by
  decide

theorem handler?_catchingFrame :
    catchingFrame.handler? loadedClass throwableClass = some ⟨0, 2, 3, some .throwable⟩ := by
  rw [Frame.handler?, covering_catchingFrame, List.find?_cons_of_neg (by simp [takes_string])]
  exact List.find?_cons_of_pos (takes_throwable 0 2 3)

theorem tried_catchingFrame :
    catchingFrame.tried loadedClass throwableClass = [.string, .throwable] := by
  rw [Frame.tried, covering_catchingFrame, Frame.tried.among, takes_string, Frame.tried.among,
    takes_throwable]
  rfl

theorem unwinding_exact_over_two_frames :
    let t := { Thread.start 1 "main" with frames := [throwingFrame, catchingFrame] }
    let t1 := { t with frames := [throwingFrame.trapped [], catchingFrame] }
    (step (bounded 5)).Yields (fun _ => True) t (.error (.throw ⟨0⟩)) t1 ∧
      (unwind (bounded 5) ⟨0⟩ 0).LeadsTo
        (Machine.Steady 1 ⟨0⟩ throwableClass loadedClass [.string, .throwable]) t1
        ((bounded 4).run 0)
        { t with frames := [{ catchingFrame with stack := [.object ⟨0⟩], pc := 3 }] } ∧
      steadyMachine.Steady 1 ⟨0⟩ throwableClass loadedClass [.string, .throwable] := by
  intro t t1
  have hb : ∀ f ∈ [throwingFrame, catchingFrame], f.isBlank = false := by
    simp [throwingFrame, catchingFrame, runningFrame, Frame.isBlank]
  have hstep : (step (bounded 5)).Yields (fun _ => True) t (.error (.throw ⟨0⟩)) t1 :=
    yields_throw (bounded 5) rfl rfl rfl rfl rfl
  have hexact := (unwinding_exact 5 t ⟨steadyMachine, []⟩ throwingFrame [catchingFrame] [] rfl rfl
    hb).2
  obtain ⟨s1, h1⟩ := Prog.Leads.exists_of_meets hstep (fun _ => trivial) hexact
  obtain ⟨stack, hf, hthrown⟩ := h1 _ rfl rfl
  obtain ⟨-, h2⟩ := hthrown
  obtain ⟨-, -, hunwinds⟩ := h2 ⟨0⟩ rfl
  cases hf
  refine ⟨hstep, ?_, steady_steadyMachine fun n hn => ?_⟩
  · have habove : [throwingFrame.trapped [], catchingFrame] =
        [throwingFrame.trapped []] ++ catchingFrame :: [] := rfl
    have hcaught := hunwinds.caught (n := 4) rfl habove (fun f hf => ?_) handler?_catchingFrame
    · have htried : ([throwingFrame.trapped []] ++ [catchingFrame]).flatMap
          (Frame.tried loadedClass throwableClass) = [.string, .throwable] := by
        rw [List.flatMap_append, List.flatMap_singleton, List.flatMap_singleton, tried_catchingFrame]
        rfl
      rw [htried] at hcaught
      exact hcaught
    · obtain rfl := List.mem_singleton.1 hf
      rfl
  · simp only [List.mem_cons, List.not_mem_nil, or_false] at hn
    rcases hn with rfl | rfl
    all_goals rfl

end Engine

end BytecodeMachine
