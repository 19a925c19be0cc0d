import BytecodeMachine.Proofs.SpecialCalls
import BytecodeMachine.Proofs.Unwinding

namespace BytecodeMachine

variable {α β : Type}

namespace Resolving

open ClassTable

variable {libraries : List Library} {table : ClassTable}

structure Agrees (x : Resolving α) (libraries : List Library) : Prop where
  loaded : ∀ table, Loaded libraries table (x table).2
  agrees : ∀ {a : α} {table table' : ClassTable}, Closed libraries table →
    Closed libraries table' → (x table).1 = .ok a → (x table').1 = .ok a

namespace Agrees

theorem pure (a : α) : Agrees (Pure.pure a) libraries := ⟨fun _ => .refl, fun _ _ h => h⟩

theorem throw (e : LinkError) : Agrees (MonadExcept.throw e : Resolving α) libraries :=
  ⟨fun _ => .refl, fun _ _ h => h⟩

theorem bind {x : Resolving α} {f : α → Resolving β} (hx : x.Agrees libraries)
    (hf : ∀ a, (f a).Agrees libraries) : (x >>= f).Agrees libraries where
  loaded table := by
    have hl := hx.loaded table
    rw [bind_apply]
    rcases hr : x table with ⟨_ | a, table1⟩
    · rwa [hr] at hl
    · rw [hr] at hl
      exact hl.trans ((hf a).loaded table1)
  agrees {b table table'} h h' hb := by
    rw [bind_apply] at hb ⊢
    have h1 := (hx.loaded table).closed h
    have h1' := (hx.loaded table').closed h'
    rcases hr : x table with ⟨_ | a, table1⟩
    · rw [hr] at hb
      cases hb
    · have ha : (x table').1 = .ok a := hx.agrees h h' (congrArg Prod.fst hr)
      rcases hr' : x table' with ⟨r, table1'⟩
      rw [hr'] at ha h1'
      rw [hr] at hb h1
      subst ha
      exact (hf a).agrees h1 h1' hb

theorem loadClass (n : ClassName) : Agrees (Resolving.loadClass libraries n) libraries :=
  ⟨load_extends libraries [] n, load_agree⟩

theorem checkClass (target : Class) (context : Option Class) :
    Agrees (Resolving.checkClass target context) libraries := by
  unfold Resolving.checkClass
  split
  · exact pure _
  · dsimp only
    split
    · exact pure _
    · exact throw _

theorem checkMember (owner : Class) (v : Visibility) (member : String) (context : Option Class) :
    Agrees (Resolving.checkMember owner v member context) libraries := by
  unfold Resolving.checkMember
  split
  · exact pure _
  · split
    · exact pure _
    · exact throw _

theorem resolveMethod (ref : MethodRef) (context : Option Class) :
    Agrees (Resolving.resolveMethod libraries ref context) libraries := by
  refine bind ((loadClass _).bind fun c => (checkClass c context).bind fun _ => pure c) fun c => ?_
  split
  · exact throw _
  · exact (loadClass _).bind fun owner => (checkMember _ _ _ _).bind fun _ => pure _

end Agrees

end Resolving

namespace Machine

variable {m m' : Machine}

theorem Sound.resolve_course {res : List Library → Resolving α} {a : α} (hs : m.Sound)
    (hres : ∀ libraries, (res libraries).Agrees libraries) (ha : (m.resolve res).1 = .ok a)
    (hc : m.Course m') : (m'.resolve res).1 = .ok a := by
  have hlib := hc.grows.libraries
  have hclosed : ClassTable.Closed m.libraries m'.classes := hlib ▸ (hs.course hc).closed
  change (res m'.libraries m'.classes).1 = _
  rw [hlib]
  exact (hres m.libraries).agrees hs.closed hclosed ha

theorem Sound.load_known (hs : m.Sound) {known : ClassTable}
    (hknown : ClassTable.Closed m.libraries known) {n : ClassName} {k : Class}
    (hk : known.get? n = some k) : (m.resolve fun l => .loadClass l n).1 = .ok k :=
  ClassTable.load_agree hknown hs.closed (congrArg Prod.fst (ClassTable.load_of_get? hk))

end Machine

def Thread.popped (frame : Frame) (below : List Value) (rest : List Frame) (t : Thread) : Thread :=
  { t with frames := { frame with stack := below } :: rest }

theorem Frame.getElem?_of_enter {k : Class} {g : Method} {before after : List Value} {v : Value}
    {f : Frame} (h : enter k g (before ++ v :: after) = .ok f) :
    f.locals[argumentWidth before]? = some (.value v) := by
  obtain ⟨code, -, -, rfl⟩ := enter_eq_ok_iff.1 h
  obtain ⟨rest, hrest⟩ := pack_cons v after
  rw [getElem?_pack_append, hrest]
  rfl

namespace Exec

variable {e : Engine} {k : Class} {g : Method} {arguments : List Value} {env : Machine → Prop}
  {t : Thread}

theorem yields_enterFrame {r : Except Trap Unit} {t' : Thread}
    (h : (do
      let f ← ofExcept (Frame.enter k g arguments)
      modify (·.push f) : Exec Unit).Yields env t r t') :
    (enterFrame k g arguments).Yields env t r t' := by
  refine .step fun m _ => ?_
  dsimp only
  cases m.journal.keeps .debug with
  | true => exact .sign h
  | false => exact h

theorem yields_enterMethod {r : Except Trap Unit} {t' : Thread} (hn : g.isNative = false)
    (ha : g.isAbstract = false) (hcode : g.code.isSome = true)
    (h : (do
      let f ← ofExcept (Frame.enter k g arguments)
      modify (·.push f) : Exec Unit).Yields env t r t') :
    (enterMethod e k g arguments).Yields env t r t' := by
  have hnone : ¬ (g.isAbstract || g.code.isNone) = true := by
    rw [Option.isNone_eq_false_iff.2 hcode]
    simp [ha]
  unfold enterMethod
  rw [if_neg (by simp [hn]), if_neg hnone]
  exact yields_enterFrame h

def crossing (ts : List FieldType) (vs : List Value) : Exec (List NativeValue) :=
  (ts.zip vs).mapM fun p => toNative p.2 p.1

theorem convertArguments_eq_crossing {ts : List FieldType} {vs : List Value}
    (h : ts.length ≤ vs.length) : convertArguments g ts vs = crossing ts vs := by
  induction ts generalizing vs with
  | nil => rfl
  | cons t ts ih =>
    cases vs with
    | nil => simp at h
    | cons v vs =>
      rw [crossing, List.zip_cons_cons, List.mapM_cons, convertArguments, ih (by simpa using h)]
      rfl

structure Begins (e : Engine) (k : Class) (g : Method) (arguments : List Value) : Prop where
  bodiless : g.isNative = false → g.isAbstract = true ∨ g.code = none → ∀ env t,
    (enterMethod e k g arguments).Yields env t (.error (.raise (.bodiless g.ref))) t
  entered : g.isNative = false → g.isAbstract = false → g.code.isSome = true →
    ∃ f, f.activation = some ⟨k, g⟩ ∧ Frame.HoldsFrom f.locals 0 g.argumentTypes ∧
      (∀ before v after, arguments = before ++ v :: after →
        f.locals[Frame.argumentWidth before]? = some (.value v)) ∧
      ∀ env t, (enterMethod e k g arguments).Yields env t (.ok ()) (t.push f)
  static : g.isStatic = true → Frame.Fit arguments g.type.parameters ∧
    nativeArguments g arguments = crossing g.type.parameters arguments
  onObject : g.isStatic = false → ∃ o others, arguments = .object o :: others ∧
    Frame.Fit others g.type.parameters ∧ nativeArguments g arguments = (do
      pure (.object o :: (← crossing g.type.parameters others)))

structure Slips (e : Engine) (k : Class) (g : Method) (arguments : List Value) : Prop where
  refused : g.isNative = false → g.isAbstract = false → g.code.isSome = true → ∀ env t,
    (enterMethod e k g arguments).Yields env t
      (.error (.fatal (.argumentWidth g.ref g.argumentSlots (g.argumentSlots + 1)))) t
  shifted : nativeArguments g arguments = crossing g.type.parameters arguments

theorem nativeArguments_of_static (hs : g.isStatic = true)
    (h : g.type.parameters.length ≤ arguments.length) :
    nativeArguments g arguments = crossing g.type.parameters arguments := by
  unfold nativeArguments
  rw [if_pos hs, convertArguments_eq_crossing h]

theorem begins (hf : Frame.Fit arguments g.argumentTypes)
    (ho : g.isStatic = false → ∃ o others, arguments = .object o :: others) :
    Begins e k g arguments where
  bodiless hn hb env t := by
    unfold enterMethod
    rw [if_neg (by simp [hn]), if_pos (by simpa using hb)]
    exact .here rfl
  entered hn ha hcode := by
    obtain ⟨f, hf, hh⟩ := Frame.enter_of_fit (c := k) hcode hf
    refine ⟨f, Frame.activation_of_enter hf, hh, ?_, fun env t => ?_⟩
    · rintro before v after rfl
      exact Frame.getElem?_of_enter hf
    · refine yields_enterMethod hn ha hcode ?_
      rw [hf]
      exact .here rfl
  static hs := by
    have hf : Frame.Fit arguments g.type.parameters := by simpa [Method.argumentTypes, hs] using hf
    exact ⟨hf, nativeArguments_of_static hs (Nat.le_of_eq hf.length_eq.symm)⟩
  onObject hs := by
    obtain ⟨o, others, rfl⟩ := ho hs
    have hf : Frame.Fit others g.type.parameters := by
      rw [Method.argumentTypes, if_neg (by simp [hs])] at hf
      exact (List.forall₂_cons.1 hf).2
    refine ⟨o, others, rfl, hf, ?_⟩
    unfold nativeArguments
    rw [if_neg (by simp [hs])]
    change (do pure (.object o :: (← convertArguments g g.type.parameters others)) : Exec _) = _
    rw [convertArguments_eq_crossing (Nat.le_of_eq hf.length_eq.symm)]

theorem slips {o : ObjectId} {others : List Value} (hs : g.isStatic = true)
    (hf : Frame.Fit others g.type.parameters) : Slips e k g (.object o :: others) where
  refused hn ha hcode env t := by
    have hwidth : Frame.argumentWidth (.object o :: others) = g.argumentSlots + 1 := by
      have htypes : g.argumentTypes = g.type.parameters := by simp [Method.argumentTypes, hs]
      rw [Frame.argumentWidth, hf.argumentWidth, ← htypes, g.totalWidth_argumentTypes]
      exact Nat.add_comm 1 _
    obtain ⟨code, hcode'⟩ := Option.isSome_iff_exists.1 hcode
    refine yields_enterMethod hn ha hcode ?_
    rw [Frame.enter, hcode']
    dsimp only
    rw [if_pos (by omega), hwidth]
    exact .here rfl
  shifted := by
    refine nativeArguments_of_static hs ?_
    rw [List.length_cons, hf.length_eq]
    exact Nat.le_succ _

end Exec

structure Call where
  kind : InvokeKind
  ref : MethodRef
  caller : Class
  named : Class
  owner : Class
  resolved : Method
  runtime : Class
  operands : List Value

namespace Call

variable {c : Call} {g : Method}

def aimsAbove (c : Call) : Bool :=
  !c.resolved.isPrivate && c.resolved.name ≠ .constructor && c.caller.isSubclassOf c.named

def found? (c : Call) : Option Method :=
  match c.kind with
  | .static => some c.resolved
  | .special =>
      if c.aimsAbove then
        c.caller.superclass.bind fun k => k.lookupMethod? c.ref.name c.ref.type
      else some c.resolved
  | .virtual | .interface =>
      if c.resolved.isPrivate then some c.resolved
      else c.runtime.lookupMethod? c.ref.name c.ref.type

def selected? (c : Call) : Option Method :=
  c.found?.filter fun g => c.kind = .static || !g.isAbstract

def Suits (c : Call) (g : Method) : Prop := g.isStatic = true ↔ c.kind = .static

def Reselects (c : Call) : Prop :=
  c.kind = .special ∧ c.aimsAbove = true ∧ c.resolved.isStatic = false

def refusal? (c : Call) : Option Cause :=
  match c.kind with
  | .static => if c.resolved.isStatic then none else some (.methodNotStatic c.resolved.ref)
  | .special =>
      if c.resolved.isStatic then some (.methodStatic c.resolved.ref)
      else
        match c.found? with
        | none => some (.bodilessFrom c.ref c.caller.name)
        | some g => if g.isAbstract then some (.bodiless g.ref) else none
  | .virtual => dispatched c.selected?
  | .interface =>
      if c.runtime.isAssignable c.named then dispatched c.selected?
      else some (.notImplemented c.runtime.name c.named.name)
where
  dispatched : Option Method → Option Cause
    | none => some (.bodilessOn c.ref c.runtime.name)
    | some g => if g.isStatic then some (.methodStatic g.ref) else none

def Offered (c : Call) (m : Machine) : Prop :=
  if c.kind = .static then Frame.Fit c.operands c.ref.type.parameters
  else ∃ o arguments, c.operands = .object o :: arguments ∧ m.IsA o c.runtime ∧
    Frame.Fit arguments c.ref.type.parameters

theorem dispatched_of_static (hg : c.selected? = some g) (hs : g.isStatic = true) :
    refusal?.dispatched c c.selected? = some (.methodStatic g.ref) := by
  rw [hg, refusal?.dispatched, if_pos hs]

theorem refusal?_of_mismatch (hg : c.selected? = some g) (hs : ¬ c.Suits g)
    (hr : ¬ c.Reselects) :
    ∃ cause, c.refusal? = some cause ∧ cause.condition = .incompatibleClassChange := by
  unfold Suits at hs
  unfold refusal?
  cases hk : c.kind with
  | static =>
    have hg : c.resolved = g := by simpa [selected?, found?, hk] using hg
    have hs : c.resolved.isStatic = false := by simpa [hk, ← hg] using hs
    exact ⟨.methodNotStatic c.resolved.ref, by simp [hs], rfl⟩
  | special =>
    have hs : g.isStatic = true := by simpa [hk] using hs
    cases hf : c.resolved.isStatic with
    | true => exact ⟨.methodStatic c.resolved.ref, rfl, rfl⟩
    | false =>
      have ha : c.aimsAbove = false := by simpa [Reselects, hk, hf] using hr
      have hg : c.resolved = g := by
        simp only [selected?, found?, hk, ha] at hg
        simpa using (Option.filter_eq_some_iff.1 hg).1
      cases (hg ▸ hf).symm.trans hs
  | virtual =>
    have hs : g.isStatic = true := by simpa [hk] using hs
    exact ⟨_, dispatched_of_static hg hs, rfl⟩
  | interface =>
    have hs : g.isStatic = true := by simpa [hk] using hs
    dsimp only
    split
    · exact ⟨_, dispatched_of_static hg hs, rfl⟩
    · exact ⟨_, rfl, rfl⟩

open ClassTable Exec

variable {m : Machine} {t : Thread} {frame : Frame} {below : List Value} {rest : List Frame}
  {env : Machine → Prop} {e : Engine}

structure Stands (c : Call) (m : Machine) (t : Thread) (frame : Frame) (below : List Value)
    (rest : List Frame) : Prop where
  registered : m.Has c.caller
  context : t.context? = some c.caller
  named : (m.resolve fun l => .loadClass l c.ref.klass).1 = .ok c.named
  resolved : (m.resolve fun l => .resolveMethod l c.ref (some c.caller)).1 =
    .ok (c.owner, c.resolved)
  frames : t.frames = frame :: rest
  stack : frame.stack = c.operands.reverse ++ below
  offered : c.Offered m

structure Placed (c : Call) (m : Machine) (k : Class) (g : Method) : Prop where
  type : g.type = c.ref.type
  owner : k.name = g.owner
  loads : (m.resolve fun l => .loadClass l g.owner).1 = .ok k

namespace Stands

theorem exists_receiver (h : c.Stands m t frame below rest) (hk : c.kind ≠ .static) :
    ∃ o arguments, c.operands = .object o :: arguments ∧ m.IsA o c.runtime ∧
      Frame.Fit arguments c.ref.type.parameters := by
  have ho := h.offered
  rwa [Offered, if_neg hk] at ho

theorem has_runtime (h : c.Stands m t frame below rest) (hs : m.Sound) (hk : c.kind ≠ .static) :
    m.Has c.runtime := by
  obtain ⟨o, -, -, ⟨x, hx, hc⟩, -⟩ := h.exists_receiver hk
  exact hc ▸ hs.known o x hx

theorem placed_resolved (h : c.Stands m t frame below rest) (hs : m.Sound) :
    c.Placed m c.owner c.resolved := by
  obtain ⟨hloaded, hfound⟩ :=
    Resolving.keeps_resolveMethod c.ref (some c.caller) m.libraries m.classes
  obtain ⟨howner, ⟨k, -, hl⟩, -⟩ := hfound (c.owner, c.resolved) h.resolved
  have hclosed := hloaded.closed hs.closed
  exact ⟨(Class.mem_of_lookupMethod? hl).2.1, hclosed.name howner, hs.load_known hclosed howner⟩

theorem exists_placed_of_lookup (hs : m.Sound) {j : Class} (hj : m.Has j)
    (hg : j.lookupMethod? c.ref.name c.ref.type = some g) : ∃ k, c.Placed m k g := by
  obtain ⟨k, hk, hd⟩ := Class.exists_under_of_lookupMethod? hg
  have hget := hs.closed.owner_of_declares hj hk hd
  refine ⟨k, (Class.mem_of_lookupMethod? hg).2.1, hs.closed.name hget, ?_⟩
  exact hs.load_known hs.closed hget

theorem exists_placed (h : c.Stands m t frame below rest) (hs : m.Sound)
    (hg : c.found? = some g) : ∃ k, c.Placed m k g := by
  have same (hg : some c.resolved = some g) : ∃ k, c.Placed m k g :=
    ⟨c.owner, Option.some.inj hg ▸ h.placed_resolved hs⟩
  have dispatched (hk : c.kind ≠ .static) (hg : (if c.resolved.isPrivate then some c.resolved
      else c.runtime.lookupMethod? c.ref.name c.ref.type) = some g) : ∃ k, c.Placed m k g := by
    split at hg
    · exact same hg
    · exact exists_placed_of_lookup hs (h.has_runtime hs hk) hg
  unfold found? at hg
  cases hk : c.kind with
  | static =>
    rw [hk] at hg
    exact same hg
  | special =>
    simp only [hk] at hg
    split at hg
    · obtain ⟨j, hj, hg⟩ := Option.bind_eq_some_iff.1 hg
      have hhas := hs.closed.above h.registered (Class.mem_above_of_superclass hj true)
      exact exists_placed_of_lookup hs hhas hg
    · exact same hg
  | virtual =>
    rw [hk] at hg
    exact dispatched (by simp [hk]) hg
  | interface =>
    rw [hk] at hg
    exact dispatched (by simp [hk]) hg

end Stands

inductive Answers (c : Call) (env : Machine → Prop) (t left : Thread) (x : Exec Choice) : Prop
  | refused {cause : Cause} {t' : Thread} (hc : c.refusal? = some cause)
      (ht : t' = t ∨ t' = left) (h : x.Yields env t (.error (.raise cause)) t')
  | chosen {k : Class} {g : Method} (hc : c.refusal? = none) (hg : c.selected? = some g)
      (hk : k.name = g.owner) (h : x.Yields env t (.ok (k, g, c.operands)) left)

theorem Answers.after {x : Exec α} {a : α} {t left : Thread} {f : α → Exec Choice}
    (hx : x.Yields env t (.ok a) t) (h : c.Answers env t left (f a)) :
    c.Answers env t left (x >>= f) := by
  cases h with
  | refused hc ht h => exact .refused hc ht (hx.bind h)
  | chosen hc hg hk h => exact .chosen hc hg hk (hx.bind h)

theorem Answers.afterwards {x : Exec α} {a : α} {t left : Thread} {f : α → Exec Choice}
    (hx : x.Yields env t (.ok a) left) (h : c.Answers env left left (f a)) :
    c.Answers env t left (x >>= f) := by
  cases h with
  | refused hc ht h => exact .refused hc (.inr (ht.elim id id)) (hx.bind h)
  | chosen hc hg hk h => exact .chosen hc hg hk (hx.bind h)

namespace Stands

theorem yields_resolveMethod (h : c.Stands m t frame below rest) (hs : m.Sound) :
    (resolveMethod c.ref).Yields m.Course t (.ok (c.owner, c.resolved)) t := by
  refine (yields_get t).bind ?_
  rw [h.context]
  exact yields_resolve fun m' hc =>
    hs.resolve_course (fun _ => Resolving.Agrees.resolveMethod _ _) h.resolved hc

theorem yields_loadClass (hs : m.Sound) {n : ClassName} {k : Class}
    (hk : (m.resolve fun l => .loadClass l n).1 = .ok k) (t : Thread) :
    (loadClass n).Yields m.Course t (.ok k) t :=
  yields_resolve fun _ hc => hs.resolve_course (fun _ => Resolving.Agrees.loadClass _) hk hc

theorem yields_popMany (h : c.Stands m t frame below rest) {n : Nat}
    (hn : c.operands.length = n) {t1 : Thread} (ht : t1.frames = t.frames) :
    (inFrame (.popMany n)).Yields env t1 (.ok c.operands) (t1.popped frame below rest) :=
  yields_inFrame (ht.trans h.frames) (FrameM.run_popMany h.stack hn)

theorem length_operands (h : c.Stands m t frame below rest) (hs : m.Sound) :
    c.operands.length =
      c.resolved.type.parameters.length + if c.kind = .static then 0 else 1 := by
  rw [(h.placed_resolved hs).type]
  split
  · rename_i hk
    have ho := h.offered
    rw [Offered, if_pos hk] at ho
    exact ho.length_eq
  · rename_i hk
    obtain ⟨o, arguments, ho, -, hf⟩ := h.exists_receiver hk
    rw [ho, List.length_cons, hf.length_eq]

theorem yields_operands (h : c.Stands m t frame below rest) (hs : m.Sound)
    (hk : c.kind ≠ .static) :
    (inFrame (.popMany (c.resolved.type.parameters.length + 1))).Yields env t
      (.ok c.operands) (t.popped frame below rest) :=
  h.yields_popMany (by simpa [hk] using h.length_operands hs) rfl

theorem yields_receiverOf (h : c.Stands m t frame below rest) (hk : c.kind ≠ .static)
    (f : Method) (t1 : Thread) : ∃ o, m.IsA o c.runtime ∧
      (receiverOf f c.operands).Yields env t1 (.ok o) t1 := by
  obtain ⟨o, arguments, ho, hr, -⟩ := h.exists_receiver hk
  exact ⟨o, hr, ho ▸ .here rfl⟩

theorem yields_specialTarget (h : c.Stands m t frame below rest) (hs : m.Sound)
    (hk : c.kind = .special) :
    (c.found? = none ∧ (specialTarget c.ref c.owner c.resolved).Yields m.Course t
      (.error (.raise (.bodilessFrom c.ref c.caller.name))) t) ∨
    ∃ g k, c.found? = some g ∧ k.name = g.owner ∧
      (specialTarget c.ref c.owner c.resolved).Yields m.Course t (.ok (k, g)) t := by
  have hnamed := yields_loadClass hs h.named t
  cases ha : c.aimsAbove with
  | false =>
    refine .inr ⟨c.resolved, c.owner, by simp [found?, hk, ha],
      (h.placed_resolved hs).owner, ?_⟩
    refine (yields_get t).bind ?_
    rw [h.context]
    dsimp only
    split
    · exact yields_pure _
    · refine hnamed.bind ?_
      rw [if_pos (by simp_all [aimsAbove])]
      exact yields_pure _
  | true =>
    have hfound : c.found? = c.caller.superclass.bind fun k =>
        k.lookupMethod? c.ref.name c.ref.type := by simp [found?, hk, ha]
    simp only [aimsAbove, Bool.and_eq_true, Bool.not_eq_true', decide_eq_true_eq] at ha
    have hsearch : (specialTarget c.ref c.owner c.resolved).LeadsTo m.Course t
        (match c.found? with
        | none => raise (.bodilessFrom c.ref c.caller.name)
        | some g => do
            let owner ← loadClass g.owner
            pure (owner, g)) t := by
      refine (yields_get t).leadsTo ?_
      rw [h.context]
      dsimp only
      rw [if_neg (by simp [ha])]
      refine hnamed.leadsTo ?_
      rw [if_neg (by simp [ha]), hfound]
      exact leadsTo_refl _ _
    cases hg : c.found? with
    | none =>
      rw [hg] at hsearch
      exact .inl ⟨rfl, hsearch.yields (.here rfl)⟩
    | some g =>
      obtain ⟨k, hplaced⟩ := h.exists_placed hs hg
      rw [hg] at hsearch
      refine .inr ⟨g, k, rfl, hplaced.owner, hsearch.yields ?_⟩
      exact (yields_loadClass hs hplaced.loads t).bind (yields_pure _)

theorem answers_special (h : c.Stands m t frame below rest) (hs : m.Sound)
    (hk : c.kind = .special) :
    c.Answers m.Course t (t.popped frame below rest)
      (chooseSpecial c.ref c.owner c.resolved) := by
  have hne : c.kind ≠ .static := by simp [hk]
  unfold chooseSpecial
  cases hf : c.resolved.isStatic with
  | true => exact .refused (by simp [refusal?, hk, hf]) (.inl rfl) (.here rfl)
  | false =>
    rcases h.yields_specialTarget hs hk with ⟨hnone, ht⟩ | ⟨g, k, hg, hkg, ht⟩
    · exact .refused (by simp [refusal?, hk, hf, hnone]) (.inl rfl) ht.bind_error
    · refine .after ht (.afterwards (h.yields_operands hs hne) ?_)
      obtain ⟨o, -, ho⟩ := h.yields_receiverOf hne g (t.popped frame below rest)
      refine .after ho ?_
      cases ha : g.isAbstract with
      | true => exact .refused (by simp [refusal?, hk, hf, hg, ha]) (.inl rfl) (.here rfl)
      | false =>
        refine .chosen (g := g) ?_ ?_ hkg (yields_pure _)
        · simp [refusal?, hk, hf, hg, ha]
        · simp [selected?, hg, ha, Option.filter_some]

theorem answers_target (h : c.Stands m t frame below rest) (hs : m.Sound)
    (hk : c.kind = .virtual ∨ c.kind = .interface ∧ c.runtime.isAssignable c.named = true) :
    c.Answers m.Course (t.popped frame below rest) (t.popped frame below rest)
      (chooseTarget c.ref c.runtime c.operands c.selected?) := by
  have href : c.refusal? = refusal?.dispatched c c.selected? := by
    rcases hk with hk | ⟨hk, ha⟩
    · simp [refusal?, hk]
    · simp [refusal?, hk, ha]
  cases hg : c.selected? with
  | none => exact .refused (by rw [href, hg]; rfl) (.inl rfl) (.here rfl)
  | some g =>
    obtain ⟨k, hplaced⟩ := h.exists_placed hs (Option.filter_eq_some_iff.1 hg).1
    cases hf : g.isStatic with
    | true =>
      refine .refused (href.trans (dispatched_of_static hg hf)) (.inl rfl) ?_
      unfold chooseTarget
      dsimp only
      rw [if_pos hf]
      exact .here rfl
    | false =>
      refine .chosen ?_ hg hplaced.owner ?_
      · rw [href, hg, refusal?.dispatched, hf]
        rfl
      · unfold chooseTarget
        dsimp only
        rw [if_neg (by simp [hf])]
        exact (yields_loadClass hs hplaced.loads _).bind (yields_pure _)

theorem answers_dynamic (h : c.Stands m t frame below rest) (hs : m.Sound) (isInterface : Bool)
    (hk : c.kind = if isInterface then .interface else .virtual) :
    c.Answers m.Course t (t.popped frame below rest)
      (chooseDynamic isInterface c.ref c.resolved) := by
  have hne : c.kind ≠ .static := by
    rw [hk]
    cases isInterface <;> simp
  refine .afterwards (h.yields_operands hs hne) ?_
  obtain ⟨o, hr, ho⟩ := h.yields_receiverOf hne c.resolved (t.popped frame below rest)
  refine .after ho (.after (yields_classOf (c := c.runtime) fun m' hc => ?_) ?_)
  · obtain ⟨x, hx, hxc⟩ := hc.grows.isA hr
    rw [hx, Option.map_some, hxc]
  · have htarget : dynamicTarget? c.ref c.resolved c.runtime = c.selected? := by
      cases isInterface <;> simp [hk, selected?, found?, dynamicTarget?]
    rw [htarget]
    cases isInterface with
    | false => exact h.answers_target hs (.inl hk)
    | true =>
      refine .after (yields_loadClass hs h.named _) ?_
      cases ha : c.runtime.isAssignable c.named with
      | true => exact h.answers_target hs (.inr ⟨hk, ha⟩)
      | false =>
        have hk : c.kind = .interface := hk
        exact .refused (by simp [refusal?, hk, ha]) (.inl rfl) (.here rfl)

theorem answers (h : c.Stands m t frame below rest) (hs : m.Sound) (hk : c.kind ≠ .static)
    (e : Engine) :
    c.Answers m.Course t (t.popped frame below rest) (choose e c.kind c.ref) := by
  refine .after (h.yields_resolveMethod hs) ?_
  cases hkind : c.kind with
  | static => exact absurd hkind hk
  | special => exact h.answers_special hs hkind
  | virtual => exact h.answers_dynamic hs false hkind
  | interface => exact h.answers_dynamic hs true hkind

end Stands

structure Arrives (c : Call) (e : Engine) (env : Machine → Prop) (t : Thread)
    (popped : Thread → Thread) (k : Class) (g : Method) : Prop where
  onObject : c.kind ≠ .static →
    (invoke e c.kind c.ref).LeadsTo env t (enterMethod e k g c.operands) (popped t)
  static : c.kind = .static → ∃ x : Exec Unit,
    (invoke e c.kind c.ref).LeadsTo env t (do e.setUp k; x) t ∧
      (∀ i s, (e.setUp k).Meets (.free i) t (fun _ t1 _ => t1.frames = t.frames) s) ∧
      ∀ t1, t1.frames = t.frames → x.LeadsTo env t1 (enterMethod e k g c.operands) (popped t1)

namespace Stands

theorem begins (h : c.Stands m t frame below rest) (hs : m.Sound) (hg : c.selected? = some g)
    (hsuits : c.Suits g) (k : Class) : Begins e k g c.operands := by
  obtain ⟨-, htype, -⟩ := h.exists_placed hs (Option.filter_eq_some_iff.1 hg).1
  by_cases hk : c.kind = .static
  · have hstatic := hsuits.2 hk
    have ho := h.offered
    rw [Offered, if_pos hk, ← htype] at ho
    refine Exec.begins ?_ (by simp [hstatic])
    simpa [Method.argumentTypes, hstatic] using ho
  · have hobject : g.isStatic = false := by simpa [hk] using mt hsuits.1 hk
    obtain ⟨o, others, ho, -, hf⟩ := h.exists_receiver hk
    refine Exec.begins ?_ fun _ => ⟨o, others, ho⟩
    rw [Method.argumentTypes, if_neg (by simp [hobject]), ho, htype]
    exact .cons rfl hf

theorem slips (h : c.Stands m t frame below rest) (hs : m.Sound) (hg : c.selected? = some g)
    (hsuits : ¬ c.Suits g) (hr : c.Reselects) (k : Class) : Slips e k g c.operands := by
  obtain ⟨-, htype, -⟩ := h.exists_placed hs (Option.filter_eq_some_iff.1 hg).1
  have hk : c.kind ≠ .static := by simp [hr.1]
  have hstatic : g.isStatic = true := by simpa [Suits, hk] using hsuits
  obtain ⟨o, others, ho, -, hf⟩ := h.exists_receiver hk
  rw [ho]
  exact Exec.slips hstatic (htype ▸ hf)

theorem refused_static (h : c.Stands m t frame below rest) (hs : m.Sound) (hk : c.kind = .static)
    (hf : c.resolved.isStatic = false) :
    (choose e c.kind c.ref).Yields m.Course t
      (.error (.raise (.methodNotStatic c.resolved.ref))) t := by
  refine (h.yields_resolveMethod hs).bind ?_
  rw [hk]
  unfold chooseStatic
  dsimp only
  rw [hf]
  exact .here rfl

theorem refused (h : c.Stands m t frame below rest) (hs : m.Sound) (e : Engine) {cause : Cause}
    (hc : c.refusal? = some cause) :
    ∃ t', (t' = t ∨ t' = t.popped frame below rest) ∧
      (invoke e c.kind c.ref).Yields m.Course t (.error (.raise cause)) t' := by
  rw [invoke_eq_choose]
  by_cases hk : c.kind = .static
  · cases hf : c.resolved.isStatic with
    | true => simp [refusal?, hk, hf] at hc
    | false =>
      have hcause : Cause.methodNotStatic c.resolved.ref = cause := by
        simpa [refusal?, hk, hf] using hc
      exact ⟨t, .inl rfl, hcause ▸ (h.refused_static hs hk hf).bind_error⟩
  · cases h.answers hs hk e with
    | refused hc' ht hy =>
      cases hc.symm.trans hc'
      exact ⟨_, ht, hy.bind_error⟩
    | chosen hc' => cases hc.symm.trans hc'

theorem arrives_static (h : c.Stands m t frame below rest) (hs : m.Sound) (he : e.Balanced)
    (hk : c.kind = .static) (hf : c.resolved.isStatic = true) :
    c.Arrives e m.Course t (Thread.popped frame below rest) c.owner c.resolved where
  onObject hne := absurd hk hne
  static _ := by
    refine ⟨do
      let arguments ← inFrame (.popMany c.resolved.type.parameters.length)
      enterMethod e c.owner c.resolved arguments, ?_, fun i s => ?_, fun t1 ht => ?_⟩
    · refine (h.yields_resolveMethod hs).leadsTo ?_
      rw [hk]
      unfold invokeStatic
      dsimp only
      rw [hf]
      exact leadsTo_refl _ _
    · exact (he.setUp c.owner t i s).mono fun _ _ _ hkin => hkin.frames
    · refine Yields.leadsTo (h.yields_popMany ?_ ht) (leadsTo_refl _ _)
      simpa [hk] using h.length_operands hs

theorem arrives (h : c.Stands m t frame below rest) (hs : m.Sound) (he : e.Balanced)
    (hc : c.refusal? = none) : ∃ k g, c.selected? = some g ∧ k.name = g.owner ∧
      c.Arrives e m.Course t (Thread.popped frame below rest) k g := by
  by_cases hk : c.kind = .static
  · have hf : c.resolved.isStatic = true := by simpa [refusal?, hk] using hc
    have howner := (h.placed_resolved hs).owner
    refine ⟨c.owner, c.resolved, ?_, howner, h.arrives_static hs he hk hf⟩
    simp [selected?, found?, hk]
  · cases h.answers hs hk e with
    | refused hc' => cases hc.symm.trans hc'
    | @chosen k g _ hg hkg hy =>
      refine ⟨k, g, hg, hkg, fun _ => ?_, fun hstatic => absurd hstatic hk⟩
      rw [invoke_eq_choose]
      exact hy.leadsTo (leadsTo_refl _ _)

end Stands

end Call

structure Call.Settled (c : Call) (e : Engine) (env : Machine → Prop) (t : Thread)
    (popped : Thread → Thread) : Prop where
  mismatched : ∀ g, c.selected? = some g → ¬ c.Suits g → ¬ c.Reselects →
    ∃ cause t', c.refusal? = some cause ∧ cause.condition = .incompatibleClassChange ∧
      (Exec.invoke e c.kind c.ref).Yields env t (.error (.raise cause)) t'
  refused : ∀ cause, c.refusal? = some cause → ∃ t', (t' = t ∨ t' = popped t) ∧
    (Exec.invoke e c.kind c.ref).Yields env t (.error (.raise cause)) t'
  entered : c.refusal? = none → ∃ k g, c.selected? = some g ∧ k.name = g.owner ∧
    c.Arrives e env t popped k g ∧ (c.Suits g ∧ Exec.Begins e k g c.operands ∨
      ¬ c.Suits g ∧ c.Reselects ∧ Exec.Slips e k g c.operands)

theorem Call.Stands.settled {c : Call} {m : Machine} {t : Thread} {frame : Frame}
    {below : List Value} {rest : List Frame} {e : Engine} (h : c.Stands m t frame below rest)
    (hs : m.Sound) (he : e.Balanced) :
    c.Settled e m.Course t (Thread.popped frame below rest) where
  mismatched g hg hsuits hr := by
    obtain ⟨cause, hc, hcond⟩ := refusal?_of_mismatch hg hsuits hr
    obtain ⟨t', -, hy⟩ := h.refused hs e hc
    exact ⟨cause, t', hc, hcond, hy⟩
  refused _ := h.refused hs e
  entered hc := by
    obtain ⟨k, g, hg, hk, harr⟩ := h.arrives hs he hc
    refine ⟨k, g, hg, hk, harr, ?_⟩
    by_cases hsuits : c.Suits g
    · exact .inl ⟨hsuits, h.begins hs hg hsuits k⟩
    · have hr : c.Reselects := by
        by_contra hr
        obtain ⟨cause, hcause, -⟩ := refusal?_of_mismatch hg hsuits hr
        cases hc.symm.trans hcause
      exact .inr ⟨hsuits, hr, h.slips hs hg hsuits hr k⟩

theorem Engine.mismatched_calls_are_raised (bound : Nat) (libraries : List Library)
    (natives : NativeTable) (settings : Settings) (stdout stderr : Pipe) (journal : Journal)
    (name : Nat → String) (demands : Nat → List Demand)
    {p : Pool (Except Trap Unit × Thread) × Scene}
    (hr : Pool.Run Machine.Rests ((bounded bound).sessions name demands,
      .start libraries natives settings stdout stderr journal) p) :
    (∀ p', Pool.Run Machine.Rests p p' → p.2.machine.Course p'.2.machine) ∧
    ∀ (c : Call) (t : Thread) (frame : Frame) (below : List Value) (rest : List Frame),
      c.Stands p.2.machine t frame below rest →
      c.Settled (bounded bound) p.2.machine.Course t (Thread.popped frame below rest) := by
  have hkept := ((kept_sessions bound libraries natives settings stdout stderr journal name
    demands).run hr).2
  refine ⟨fun p' hr' => (hkept.run hr').1, fun c t frame below rest h => ?_⟩
  exact h.settled hkept.sound (balanced_bounded bound)

open CoreLibrary in
theorem Engine.mismatched_calls_are_raised_of_string :
    ∃ (p : Pool (Except Trap Unit × Thread) × Scene) (c : Call) (t t' : Thread) (frame : Frame),
      Pool.Run Machine.Rests ((bounded 5).sessions (fun _ => "main") fun _ => [.setUp .string],
        .start [] .standard .standard .sound .sound (.ofVerbosity none)) p ∧
      c.Stands p.2.machine t frame [] [] ∧ c.kind = .static ∧ c.resolved.isStatic = false ∧
      (Exec.invoke (.bounded 5) .static c.ref).Yields p.2.machine.Course t
        (.error (.raise (.methodNotStatic c.resolved.ref))) t' := by
  have hrun : Pool.Step Machine.Rests ((bounded 5).sessions (fun _ => "main") fun _ =>
      [.setUp .string], .start [] .standard .standard .sound .sound (.ofVerbosity none)) _ :=
    .thread 1 (.step _ _ _)
  let ref : MethodRef := ⟨.object, ⟨"equals"⟩, ⟨[any], some boolean⟩⟩
  have hsound := ((kept_sessions 5 [] .standard .standard .sound .sound (.ofVerbosity none)
    (fun _ => "main") (fun _ => [.setUp .string])).run (.single hrun)).2.sound
  have hload : (ClassTable.load [library] [] .string []).1 = .ok stringRecord :=
    load_record (ClassTable.closed_nil _) rfl
  have hx := hsound.has (Machine.of_resolve (Resolving.finds_loadClass .string) hload)
  obtain ⟨f, hf, howner, hstatic, hverdict⟩ :
      ∃ f, objectRecord.lookupMethod? ref.name ref.type = some f ∧ f.owner = .object ∧
      f.isStatic = false ∧
      Resolving.verdict stringRecord objectRecord objectRecord f = .ok (objectRecord, f) :=
    ⟨_, rfl, rfl, rfl, rfl⟩
  have hobject : objectRecord ∈ stringRecord.chain := List.mem_cons_of_mem _ List.mem_cons_self
  have hget := (hsound.closed.chain hx objectRecord hobject).1
  let c : Call := ⟨.static, ref, stringRecord, objectRecord, objectRecord, f, objectRecord,
    [.ref none]⟩
  let frame : Frame := { Frame.blank with
    activation := some ⟨stringRecord, ⟨.string, ⟨"m"⟩, ⟨[], none⟩, default, none⟩⟩
    stack := [.ref none] }
  let t : Thread := { Thread.start 1 "main" with frames := [frame] }
  have hstands : c.Stands _ t frame [] [] :=
    { registered := hx
      context := rfl
      named := hsound.load_known hsound.closed hget
      resolved := (Machine.fst_resolve_of_get? hget hf (howner ▸ hget)).trans hverdict
      frames := rfl
      stack := rfl
      offered := .cons rfl .nil }
  have h := mismatched_calls_are_raised 5 [] .standard .standard .sound .sound (.ofVerbosity none)
    (fun _ => "main") (fun _ => [.setUp .string]) (.single hrun)
  have hrefusal : c.refusal? = some (.methodNotStatic f.ref) := by
    simp [Call.refusal?, c, hstatic]
  obtain ⟨t', -, hyields⟩ := (h.2 c t frame [] [] hstands).refused _ hrefusal
  exact ⟨_, c, t, t', frame, .single hrun, hstands, rfl, hstatic, hyields⟩

end BytecodeMachine
