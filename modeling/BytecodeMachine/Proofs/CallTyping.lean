import BytecodeMachine.Proofs.Typing.Dispatch
import BytecodeMachine.Proofs.Typing.Operands
import BytecodeMachine.Proofs.Typing.Runs

namespace BytecodeMachine

variable {α β : Type}

def Method.argumentTypes (m : Method) : List FieldType :=
  (if m.isStatic then [] else [.object m.owner]) ++ m.type.parameters

theorem Method.totalWidth_argumentTypes (m : Method) :
    MethodType.totalWidth m.argumentTypes = m.argumentSlots := by
  unfold argumentTypes argumentSlots MethodType.slots
  cases m.isStatic with
  | true => simp
  | false => simp [MethodType.totalWidth, FieldType.width]

namespace Frame

variable {c : Class} {m : Method} {f : Frame} {arguments : List Value}

def HoldsFrom (locals : Array Slot) : Nat → List FieldType → Prop
  | _, [] => True
  | k, t :: ts =>
      (∃ v, locals[k]? = some (.value v) ∧ v.fits t = true) ∧ HoldsFrom locals (k + t.width) ts

def Fit (arguments : List Value) (ts : List FieldType) : Prop :=
  List.Forall₂ (fun v t => v.fits t = true) arguments ts

theorem Fit.argumentWidth {ts : List FieldType} (h : Fit arguments ts) :
    argumentWidth arguments = MethodType.totalWidth ts := by
  induction h with
  | nil => rfl
  | cons hv _ ih => simp [Frame.argumentWidth, MethodType.totalWidth, Value.width_of_fits hv, ih]

theorem pack_cons (v : Value) (vs : List Value) :
    ∃ rest, pack (v :: vs) = .value v :: rest := by
  rw [pack, List.flatMap_cons]
  split
  · exact ⟨_, rfl⟩
  · exact ⟨_, rfl⟩

theorem pack_append (us vs : List Value) : pack (us ++ vs) = pack us ++ pack vs :=
  List.flatMap_append

theorem argumentWidth_append (us vs : List Value) :
    argumentWidth (us ++ vs) = argumentWidth us + argumentWidth vs := by
  rw [← length_pack, ← length_pack, ← length_pack, pack_append, List.length_append]

theorem eq_nil_of_argumentWidth (h : argumentWidth arguments = 0) : arguments = [] := by
  cases arguments with
  | nil => rfl
  | cons v vs =>
    rw [argumentWidth] at h
    rcases v.width_eq_one_or_two with hv | hv <;> omega

theorem getElem?_pack_append (before vs : List Value) (n : Nat) :
    (pack (before ++ vs) ++ List.replicate n Slot.empty).toArray[argumentWidth before]? =
      (pack vs ++ List.replicate n Slot.empty)[0]? := by
  rw [List.getElem?_toArray, pack_append, List.append_assoc, ← length_pack,
    List.getElem?_append_right (Nat.le_refl _), Nat.sub_self]

theorem holdsFrom_pack_iff (before vs : List Value) (ts : List FieldType) (n : Nat) :
    HoldsFrom (pack (before ++ vs) ++ List.replicate n Slot.empty).toArray
        (argumentWidth before) ts ↔
      ∃ us rest, vs = us ++ rest ∧ Fit us ts := by
  induction ts generalizing before vs with
  | nil => exact ⟨fun _ => ⟨[], vs, rfl, .nil⟩, fun _ => trivial⟩
  | cons t ts ih =>
    rw [HoldsFrom, getElem?_pack_append]
    cases vs with
    | nil =>
      constructor
      · rintro ⟨⟨v, hv, -⟩, -⟩
        cases n <;> cases hv
      · rintro ⟨us, rest, hus, hfit⟩
        cases (List.append_eq_nil_iff.1 hus.symm).1
        cases hfit
    | cons w ws =>
      have hhead : (pack (w :: ws) ++ List.replicate n Slot.empty)[0]? = some (.value w) := by
        obtain ⟨rest, hrest⟩ := pack_cons w ws
        rw [hrest]
        rfl
      have hnext (hw : w.fits t = true) : argumentWidth before + t.width =
          argumentWidth (before ++ [w]) := by
        simp [argumentWidth_append, argumentWidth, Value.width_of_fits hw]
      have hsplit : before ++ w :: ws = before ++ [w] ++ ws := by simp
      rw [hhead]
      constructor
      · rintro ⟨⟨v, hv, hfits⟩, hrest⟩
        cases hv
        rw [hnext hfits, hsplit, ih] at hrest
        obtain ⟨us, rest, rfl, hfit⟩ := hrest
        exact ⟨w :: us, rest, rfl, .cons hfits hfit⟩
      · rintro ⟨us, rest, hus, hfit⟩
        cases hfit with
        | cons hw hfit =>
          cases hus
          refine ⟨⟨_, rfl, hw⟩, ?_⟩
          rw [hnext hw, hsplit, ih]
          exact ⟨_, rest, rfl, hfit⟩

theorem enter_eq_ok_iff : enter c m arguments = .ok f ↔
    ∃ code, m.code = some code ∧ argumentWidth arguments = m.argumentSlots ∧
      f = { blank with
        activation := some ⟨c, m⟩
        locals := (pack arguments ++
          List.replicate (code.maxLocals - (pack arguments).length) Slot.empty).toArray } := by
  unfold enter
  cases m.code with
  | none => exact ⟨nofun, nofun⟩
  | some code =>
    dsimp only
    split
    · rename_i hw
      refine ⟨nofun, ?_⟩
      rintro ⟨_, -, hw', -⟩
      exact absurd hw' hw
    · rename_i hw
      constructor
      · intro h
        cases h
        exact ⟨code, rfl, Decidable.of_not_not hw, rfl⟩
      · rintro ⟨_, ⟨⟩, -, rfl⟩
        rfl

theorem holdsFrom_of_enter (h : enter c m arguments = .ok f) :
    HoldsFrom f.locals 0 m.argumentTypes ↔ Fit arguments m.argumentTypes := by
  obtain ⟨code, -, hwidth, rfl⟩ := enter_eq_ok_iff.1 h
  refine (holdsFrom_pack_iff [] arguments m.argumentTypes _).trans ⟨?_, fun h => ?_⟩
  · rintro ⟨us, rest, rfl, hfit⟩
    rw [argumentWidth_append, hfit.argumentWidth, m.totalWidth_argumentTypes] at hwidth
    have hrest : rest = [] := eq_nil_of_argumentWidth (by omega)
    rw [hrest, List.append_nil]
    exact hfit
  · exact ⟨arguments, [], (List.append_nil _).symm, h⟩

theorem enter_of_fit (hcode : m.code.isSome = true) (h : Fit arguments m.argumentTypes) :
    ∃ f, enter c m arguments = .ok f ∧ HoldsFrom f.locals 0 m.argumentTypes := by
  obtain ⟨code, hcode⟩ := Option.isSome_iff_exists.1 hcode
  have hwidth := h.argumentWidth.trans m.totalWidth_argumentTypes
  obtain ⟨f, hf⟩ : ∃ f, enter c m arguments = .ok f :=
    ⟨_, enter_eq_ok_iff.2 ⟨code, hcode, hwidth, rfl⟩⟩
  exact ⟨f, hf, (holdsFrom_of_enter hf).2 h⟩

theorem first_of_enter {v : Value} (h : enter c m (v :: arguments) = .ok f) :
    f.locals[0]? = some (.value v) := by
  obtain ⟨code, -, -, rfl⟩ := enter_eq_ok_iff.1 h
  obtain ⟨rest, hrest⟩ := pack_cons v arguments
  simp [hrest]

end Frame

namespace Machine

variable {m m' : Machine} {k : InvokeKind} {ref : MethodRef} {c : Class} {f : Method}
  {arguments : List Value}

structure Targets (m : Machine) (ref : MethodRef) (a : Class × Method) : Prop where
  owner : m.classes.get? a.2.owner = some a.1
  name : a.2.name = ref.name
  type : a.2.type = ref.type

def Addresses (m : Machine) (k : InvokeKind) (c : Class) (f : Method) (arguments : List Value) :
    Prop :=
  k ≠ .static → ∃ o rest, arguments = .object o :: rest ∧
    (k ≠ .special → f.isPrivate = false →
      ∃ x, m.heap.get? o = some x ∧ x.klass.isAssignable c = true)

theorem Grows.targets (h : m.Grows m') {a : Class × Method} (ha : m.Targets ref a) :
    m'.Targets ref a :=
  ⟨h.classes _ _ ha.owner, ha.name, ha.type⟩

theorem Grows.addresses (h : m.Grows m') (ha : m.Addresses k c f arguments) :
    m'.Addresses k c f arguments := by
  intro hk
  obtain ⟨o, rest, hargs, hx⟩ := ha hk
  refine ⟨o, rest, hargs, fun hs hp => ?_⟩
  exact fitsComponent_iff.1 (h.fits (fitsComponent_iff.2 (hx hs hp)))

end Machine

namespace Exec

open Frames

variable {e : Engine} {t : Thread} {s : Scene} {i : Nat} {k : InvokeKind} {ref : MethodRef}
  {c : Class} {f : Method} {arguments : List Value}

inductive Starts (c : Class) (f : Method) (arguments : List Value) (t : Thread) :
    Except Trap Unit → Thread → Prop
  | native {r : Except Trap Unit} {t' : Thread} (hn : f.isNative = true)
      (h : SameBelow t.frames t'.frames) : Starts c f arguments t r t'
  | frame {g : Frame} (hn : f.isNative = false) (ha : f.isAbstract = false)
      (h : Frame.enter c f arguments = .ok g) : Starts c f arguments t (.ok ()) (t.push g)
  | refused {fault : Fault} (hn : f.isNative = false)
      (h : Frame.enter c f arguments = .error fault) :
      Starts c f arguments t (.error (.fatal fault)) t
  | bodiless (hn : f.isNative = false) (h : f.isAbstract = true ∨ f.code = none) :
      Starts c f arguments t (.error (.raise (.bodiless f.ref))) t

theorem enterFrame_starts (hn : f.isNative = false) (ha : f.isAbstract = false) :
    (enterFrame c f arguments).Meets (.free i) t (fun r t' _ => Starts c f arguments t r t') s := by
  have next (s : Scene) : (do
      let g ← ofExcept (Frame.enter c f arguments)
      modify (·.push g) : Exec Unit).Meets (.free i) t
        (fun r t' _ => Starts c f arguments t r t') s := by
    cases h : Frame.enter c f arguments with
    | ok g => exact .frame hn ha h
    | error fault => exact .refused hn h
  refine lift_bind_meets_free (fun b s => ?_) _
  dsimp only
  split
  · rw [meets_bind, meets_get, after_ok]
    exact lift_bind_meets_free (fun _ s => next s) _
  · exact next s

theorem enterMethod_starts (he : e.Balanced) (c : Class) (f : Method) (arguments : List Value) :
    (enterMethod e c f arguments).Meets (.free i) t
      (fun r t' _ => Starts c f arguments t r t') s := by
  unfold enterMethod
  split
  · rename_i hn
    refine meets_bind.2 ((he.native f arguments t i s).mono fun r t' s' h => ?_)
    have same : SameBelow t.frames t'.frames := h.frames ▸ .refl _
    rcases r with trap | _ | v
    · exact .native hn same
    · exact .native hn same
    · rw [after_ok]
      have ha : Reach.frame.Allows (FrameM.push v) := FrameM.stackOnly_push v
      exact (inFrame_effect ha).mono fun _ _ _ h' => .native hn (same.trans h'.2.sameBelow)
  · rename_i hn
    have hn' : f.isNative = false := by simpa using hn
    split
    · rename_i hb
      exact .bodiless hn' (by simpa using hb)
    · rename_i hb
      simp only [Bool.or_eq_true, not_or] at hb
      exact enterFrame_starts hn' (by simpa using hb.1)

theorem invokeMethod_refuses {fault : Fault} (he : e.Balanced) (hn : f.isNative = false)
    (ha : f.isAbstract = false) (hcode : f.code.isSome = true)
    (h : Frame.enter c f arguments = .error fault) :
    (invokeMethod e c f arguments).Meets (.free i) t
      (fun r t' _ => r = .error (.fatal fault) ∧ t'.frames = t.frames) s := by
  refine lift_bind_meets_free (fun _ s => ?_) _
  rw [meets_bind, meets_get, after_ok, meets_bind, meets_modify, after_ok, meets_bind,
    meets_attempt, meets_bind]
  refine (enterMethod_starts he c f arguments).mono fun r t1 s1 h1 => ?_
  cases h1 with
  | native hn' => cases hn.symm.trans hn'
  | frame _ _ h' => cases h.symm.trans h'
  | refused _ h' =>
    cases h.symm.trans h'
    have hf : (t.push .blank).frames = [] ++ .blank :: t.frames := rfl
    have hk : t.Kin ((t.push .blank).truncate t.depth) := truncate_kin ⟨rfl, rfl, rfl⟩ hf
    exact ⟨rfl, hk.frames⟩
  | bodiless _ h' =>
    rcases h' with h' | h'
    · cases ha.symm.trans h'
    · rw [h'] at hcode
      cases hcode

structure Passed (k : InvokeKind) (ref : MethodRef) (m : Machine) (fs fs' : Frames) : Prop where
  frames : ∃ fr below g c f arguments rest, fs = fr :: below ∧
    fr.stack = arguments.reverse ++ rest ∧ fs' = g :: { fr with stack := rest } :: below ∧
    Frame.enter c f arguments = .ok g ∧ m.Targets ref (c, f) ∧ m.Addresses k c f arguments ∧
    arguments.length = ref.type.parameters.length + if k = .static then 0 else 1

inductive Invoked (k : InvokeKind) (ref : MethodRef) (m : Machine) (fs : Frames) :
    Except Trap Unit → Frames → Prop
  | failed {trap : Trap} {fs' : Frames} (h : SameBelow fs fs') : Invoked k ref m fs (.error trap) fs'
  | native {c : Class} {f : Method} {fs' : Frames} (ht : m.Targets ref (c, f))
      (hn : f.isNative = true) (h : SameBelow fs fs') : Invoked k ref m fs (.ok ()) fs'
  | entered {fs' : Frames} (h : Passed k ref m fs fs') : Invoked k ref m fs (.ok ()) fs'

theorem Invoked.of_kin {m : Machine} {t' : Thread} {trap : Trap} (h : t.Kin t') :
    Invoked k ref m t.frames (.error trap) t'.frames :=
  .failed (h.frames ▸ .refl _)

theorem enterMethod_invoked (bound : Nat) (hs : s.machine.Sound) {fr : Frame} {below : Frames}
    {rest : List Value} (hf : t.frames = { fr with stack := rest } :: below)
    (hstack : fr.stack = arguments.reverse ++ rest) (ht : s.machine.Targets ref (c, f))
    (ha : s.machine.Addresses k c f arguments)
    (hlen : arguments.length = ref.type.parameters.length + if k = .static then 0 else 1) :
    (enterMethod (.bounded bound) c f arguments).Meets (.deeds i) t
      (fun r t' s' => Invoked k ref s'.machine (fr :: below) r t'.frames) s := by
  have hlawful := Lawful.enterMethod (Engine.lawful_bounded bound) c f arguments
  have hstarts := enterMethod_starts (t := t) (s := s) (i := i) (Engine.balanced_bounded bound)
    c f arguments
  refine ((hlawful s.machine i t s hs (.refl _)).and_free hstarts).mono ?_
  rintro r t' s' ⟨⟨hc, -⟩, hr⟩
  have hsame : SameBelow (fr :: below) t.frames := hf ▸ ⟨rfl, rfl⟩
  have hg := hc.grows
  cases hr with
  | native hn h =>
    cases r with
    | error trap => exact .failed (hsame.trans h)
    | ok _ => exact .native (hg.targets ht) hn (hsame.trans h)
  | refused => exact .failed hsame
  | bodiless => exact .failed hsame
  | frame _ _ h =>
    refine .entered ⟨fr, below, _, c, f, arguments, rest, rfl, hstack, ?_, h, hg.targets ht,
      hg.addresses ha, hlen⟩
    rw [Thread.push, hf]

theorem resolveMethod_targets {m : Machine} (ref : MethodRef) :
    Acts m (resolveMethod ref) fun a m' => m'.Targets ref a := by
  refine Acts.get.bind fun t m1 _ _ => ?_
  refine (Acts.resolve (Resolving.keeps_resolveMethod ref _) fun a table table' hg h => ?_).mono ?_
  · exact ⟨hg _ _ h.1, h.2.imp_left fun h => h.imp fun c hc => ⟨hg _ _ hc.1, hc.2⟩⟩
  · rintro a m' - - ⟨ho, ⟨c, -, hl⟩, -⟩
    obtain ⟨hname, htype, -⟩ := Class.mem_of_lookupMethod? hl
    exact ⟨ho, hname, htype⟩

theorem specialTarget_targets {m : Machine} (h : m.Targets ref (c, f)) :
    Acts m (specialTarget ref c f) fun a m' => m'.Targets ref a := by
  have same {m1 : Machine} (hg : m.Grows m1) :
      Acts m1 (pure (c, f)) fun a m' => m'.Targets ref a :=
    .pure fun m' hg' => (hg.trans hg').targets h
  refine Acts.get.bind fun t m1 hg1 _ => ?_
  split
  · exact same hg1
  · split
    · exact same hg1
    · refine (Acts.loadClass _).bind fun named m2 hg2 _ => ?_
      split
      · exact same (hg1.trans hg2)
      · split
        · exact .raise _
        · rename_i found hfound
          obtain ⟨sup, -, hl⟩ := Option.bind_eq_some_iff.1 hfound
          obtain ⟨hname, htype, -⟩ := Class.mem_of_lookupMethod? hl
          refine (Acts.loadClass _).bind fun owner m3 _ ho => .pure fun m4 hg4 => ?_
          exact ⟨hg4.classes _ _ ho.1, hname, htype⟩

theorem receiverOf_bind {β : Type} {k : Contract} {g : ObjectId → Exec β} {Q : Post β}
    (h : ∀ o rest, arguments = .object o :: rest → (g o).Meets k t Q s)
    (trapped : ∀ trap, Q (.error trap) t s) : (receiverOf f arguments >>= g).Meets k t Q s := by
  unfold receiverOf
  split
  · exact h _ _ rfl
  · exact trapped _
  · exact trapped _

theorem invokeStatic_invoked (bound : Nat) (hs : s.machine.Sound)
    (ht : s.machine.Targets ref (c, f)) :
    (invokeStatic (.bounded bound) c f).Meets (.deeds i) t
      (fun r t' s' => Invoked .static ref s'.machine t.frames r t'.frames) s := by
  have he := Engine.balanced_bounded bound
  have hl := Engine.lawful_bounded bound
  unfold invokeStatic
  dsimp only
  split
  · exact .failed (.refl _)
  · refine (hl.setUp _ c (hs.has ht.owner)).kin_bind hs (he.setUp c t i s) ?_
      fun _ _ _ hk => .of_kin hk
    intro _ t1 s1 hk1 hc1 _
    refine meets_inFrame_bind (fun fr below vs fr1 hfr hpop => ?_) fun _ _ h => .failed (hk1.frames ▸ h)
    obtain ⟨rest, hstack, hlen, rfl⟩ := FrameM.stack_of_popMany hpop
    rw [← hk1.frames, hfr]
    refine enterMethod_invoked bound (hs.course hc1) rfl hstack (hc1.grows.targets ht) ?_ ?_
    · exact fun hk => absurd rfl hk
    · rw [hlen, ← ht.type]
      rfl

theorem invokeSpecial_invoked (bound : Nat) (hs : s.machine.Sound)
    (ht : s.machine.Targets ref (c, f)) :
    (invokeSpecial (.bounded bound) ref c f).Meets (.deeds i) t
      (fun r t' s' => Invoked .special ref s'.machine t.frames r t'.frames) s := by
  unfold invokeSpecial
  dsimp only
  split
  · exact .failed (.refl _)
  · refine (specialTarget_targets ht).kin_bind hs (kin_of_built fun _ => .specialTarget _ _ _)
      ?_ fun _ _ _ hk => .of_kin hk
    rintro ⟨d, target⟩ t1 s1 hk1 hc1 htarget
    refine meets_inFrame_bind (fun fr below vs fr1 hfr hpop => ?_) fun _ _ h => .failed (hk1.frames ▸ h)
    obtain ⟨rest, hstack, hlen, rfl⟩ := FrameM.stack_of_popMany hpop
    rw [← hk1.frames, hfr]
    refine receiverOf_bind (fun o others hargs => ?_) fun _ => .failed ⟨rfl, rfl⟩
    dsimp only
    split
    · exact .failed ⟨rfl, rfl⟩
    · refine enterMethod_invoked bound (hs.course hc1) rfl hstack htarget ?_ ?_
      · exact fun _ => ⟨o, others, hargs, fun hk => absurd rfl hk⟩
      · rw [hlen, ← ht.type]
        rfl

theorem isAssignable_of_dynamicTarget? {m : Machine} (hs : m.Sound) {runtime d : Class}
    {target : Method} (hr : m.Has runtime) (h : dynamicTarget? ref f runtime = some target)
    (hd : m.classes.get? target.owner = some d) (hp : target.isPrivate = false) :
    runtime.isAssignable d = true := by
  obtain ⟨rest, hlib⟩ := hs.libraries
  have hfound := (Option.filter_eq_some_iff.1 h).1
  split at hfound
  · rename_i hf
    cases hfound
    cases hp.symm.trans hf
  · exact CoreLibrary.isAssignable_of_lookupMethod? (hlib ▸ hs.closed) hr hfound hd

theorem dynamicTarget?_targets {m : Machine} {runtime d : Class} {target : Method}
    (ht : m.Targets ref (c, f)) (h : dynamicTarget? ref f runtime = some target)
    (hd : m.classes.get? target.owner = some d) : m.Targets ref (d, target) := by
  have hfound := (Option.filter_eq_some_iff.1 h).1
  split at hfound
  · cases hfound
    exact ⟨hd, ht.name, ht.type⟩
  · obtain ⟨hname, htype, -⟩ := Class.mem_of_lookupMethod? hfound
    exact ⟨hd, hname, htype⟩

theorem dynamicTarget_invoked (bound : Nat) (hs : s.machine.Sound) {fr : Frame} {below : Frames}
    {rest others : List Value} {o : ObjectId} {runtime : Class}
    (hf : t.frames = { fr with stack := rest } :: below)
    (hstack : fr.stack = arguments.reverse ++ rest) (hargs : arguments = .object o :: others)
    (hlen : arguments.length = ref.type.parameters.length + if k = .static then 0 else 1)
    (ht : s.machine.Targets ref (c, f)) (ho : s.machine.IsA o runtime ∧ s.machine.Has runtime) :
    (match dynamicTarget? ref f runtime with
      | none => raise (.bodilessOn ref runtime.name)
      | some target => do
          if target.isStatic then
            raise (.methodStatic target.ref)
          let c ← loadClass target.owner
          enterMethod (.bounded bound) c target arguments : Exec Unit).Meets (.deeds i) t
      (fun r t' s' => Invoked k ref s'.machine (fr :: below) r t'.frames) s := by
  have hsame : SameBelow (fr :: below) t.frames := hf ▸ ⟨rfl, rfl⟩
  split
  · exact .failed hsame
  · rename_i target htarget
    dsimp only
    split
    · exact .failed hsame
    · refine (Acts.loadClass _).kin_bind hs (loadClass_kin _) ?_
        fun _ _ _ hk => .failed (hk.frames ▸ hsame)
      intro d t1 s1 hk1 hc1 hd
      have hs1 := hs.course hc1
      have hg := hc1.grows
      have htargets := dynamicTarget?_targets (hg.targets ht) htarget hd.1
      refine enterMethod_invoked bound hs1 (hk1.frames.trans hf) hstack htargets ?_ hlen
      refine fun _ => ⟨o, others, hargs, fun _ hp => ?_⟩
      obtain ⟨x, hx, rfl⟩ := hg.isA ho.1
      exact ⟨x, hx, isAssignable_of_dynamicTarget? hs1 (hg.has ho.2) htarget hd.1 hp⟩

theorem invokeDynamic_invoked (bound : Nat) (isInterface : Bool) (hs : s.machine.Sound)
    (ht : s.machine.Targets ref (c, f)) (hk : k ≠ .static) :
    (invokeDynamic (.bounded bound) isInterface ref f).Meets (.deeds i) t
      (fun r t' s' => Invoked k ref s'.machine t.frames r t'.frames) s := by
  refine meets_inFrame_bind (fun fr below vs fr1 hfr hpop => ?_) fun _ _ h => .failed h
  obtain ⟨rest, hstack, hlen, rfl⟩ := FrameM.stack_of_popMany hpop
  have hlen' : vs.length = ref.type.parameters.length + if k = .static then 0 else 1 := by
    rw [if_neg hk, hlen, ← ht.type]
  have hsame {fs : Frames} (h : fs = { fr with stack := rest } :: below) :
      SameBelow (fr :: below) fs := h ▸ ⟨rfl, rfl⟩
  rw [hfr]
  refine receiverOf_bind (fun o others hargs => ?_) fun _ => .failed (hsame rfl)
  refine (Acts.classOf o).kin_bind hs (classOf_kin o) ?_ fun _ _ _ h1 => .failed (hsame h1.frames)
  intro runtime t1 s1 hk1 hc1 ho
  have hs1 := hs.course hc1
  have ht1 := hc1.grows.targets ht
  dsimp only
  split
  · refine (Acts.loadClass _).kin_bind hs1 (loadClass_kin _) ?_
      fun _ _ _ h2 => .failed (hsame (h2.frames.trans hk1.frames))
    intro interface t2 s2 hk2 hc2 _
    have hg := hc2.grows
    have hf2 := hk2.frames.trans hk1.frames
    split
    · exact .failed (hsame hf2)
    · exact dynamicTarget_invoked bound (hs1.course hc2) hf2 hstack hargs hlen'
        (hg.targets ht1) ⟨hg.isA ho.1, hg.has ho.2⟩
  · exact dynamicTarget_invoked bound hs1 hk1.frames hstack hargs hlen' ht1 ho

theorem invoke_invoked (bound : Nat) (hs : s.machine.Sound) (k : InvokeKind) (ref : MethodRef) :
    (invoke (.bounded bound) k ref).Meets (.deeds i) t
      (fun r t' s' => Invoked k ref s'.machine t.frames r t'.frames) s := by
  refine (resolveMethod_targets ref).kin_bind hs (resolveMethod_kin ref) ?_ fun _ _ _ hk => .of_kin hk
  rintro ⟨c, f⟩ t1 s1 hk1 hc1 ht
  have hs1 := hs.course hc1
  rw [← hk1.frames]
  cases k with
  | static => exact invokeStatic_invoked bound hs1 ht
  | special => exact invokeSpecial_invoked bound hs1 ht
  | virtual => exact invokeDynamic_invoked bound false hs1 ht nofun
  | interface => exact invokeDynamic_invoked bound true hs1 ht nofun

end Exec

theorem Engine.calls_typed (bound : Nat) (libraries : List Library) (natives : NativeTable)
    (settings : Settings) (stdout stderr : Pipe) (journal : Journal) (name : Nat → String)
    (demands : Nat → List Demand) {c : Pool (Except Trap Unit × Thread) × Scene}
    (hr : Pool.Run Machine.Rests ((bounded bound).sessions name demands,
      .start libraries natives settings stdout stderr journal) c) :
    (∀ k f arguments, f.code.isSome = true → Frame.Fit arguments f.argumentTypes →
      ∃ g, Frame.enter k f arguments = .ok g ∧ Frame.HoldsFrom g.locals 0 f.argumentTypes) ∧
    (∀ k f arguments g, Frame.enter k f arguments = .ok g →
      g.activation = some ⟨k, f⟩ ∧
        (∀ v rest, arguments = v :: rest → g.locals[0]? = some (.value v)) ∧
        (Frame.HoldsFrom g.locals 0 f.argumentTypes ↔ Frame.Fit arguments f.argumentTypes)) ∧
    (∀ i t k f arguments, (Exec.enterMethod (.bounded bound) k f arguments).Meets (.free i) t
      (fun r t' _ => Exec.Starts k f arguments t r t') c.2) ∧
    (∀ i t k f arguments fault, f.isNative = false → f.isAbstract = false →
      f.code.isSome = true → Frame.enter k f arguments = .error fault →
      (Exec.invokeMethod (.bounded bound) k f arguments).Meets (.free i) t
        (fun r t' _ => r = .error (.fatal fault) ∧ t'.frames = t.frames) c.2) ∧
    ∀ i t kind ref, (Exec.invoke (.bounded bound) kind ref).Meets (.deeds i) t
      (fun r t' s' => Exec.Invoked kind ref s'.machine t.frames r t'.frames) c.2 := by
  have h := ((kept_sessions bound libraries natives settings stdout stderr journal name
    demands).run hr).2
  have he := balanced_bounded bound
  refine ⟨fun k f arguments hcode hfit => ?_, fun k f arguments g hg => ?_,
    fun i t k f arguments => ?_, fun i t k f arguments fault hn ha hcode hf => ?_,
    fun i t kind ref => ?_⟩
  · exact Frame.enter_of_fit hcode hfit
  · refine ⟨?_, ?_, Frame.holdsFrom_of_enter hg⟩
    · obtain ⟨code, -, -, rfl⟩ := Frame.enter_eq_ok_iff.1 hg
      rfl
    · rintro v rest rfl
      exact Frame.first_of_enter hg
  · exact Exec.enterMethod_starts he k f arguments
  · exact Exec.invokeMethod_refuses he hn ha hcode hf
  · exact Exec.invoke_invoked bound h.sound kind ref

theorem Engine.calls_typed_of_sample :
    ∃ c g, Pool.Run Machine.Rests (samplePool, sampleScene) c ∧
      Frame.enter sampleClass makeMethod [.long 6, .int 1] = .ok g ∧
      g.activation = some ⟨sampleClass, makeMethod⟩ ∧ g.locals[0]? = some (.value (.long 6)) ∧
      Frame.HoldsFrom g.locals 0 [.base .long, .base .int] ∧
      ¬ Frame.Fit [.int 1, .long 6] makeMethod.argumentTypes ∧
      (∃ g', Frame.enter sampleClass makeMethod [.int 1, .long 6] = .ok g' ∧
        ¬ Frame.HoldsFrom g'.locals 0 [.base .long, .base .int]) ∧
      (Exec.invoke (.bounded 12) .static makeRef).Meets (.deeds 1) (inMake 1 0 [.int 1, .long 6])
        (fun r t' s' => Exec.Invoked .static makeRef s'.machine (inMake 1 0 [.int 1, .long 6]).frames
          r t'.frames) c.2 := by
  obtain ⟨_, c, hr, hr', -⟩ := run_sample Machine.Rests
  obtain ⟨hfit, henter, -, -, hinvoke⟩ := calls_typed 12 [sampleLibrary] .standard .standard .sound
    .sound (.ofVerbosity none) (fun _ => "main") (fun _ => sampleDemands) (hr.trans hr')
  have hargs : Frame.Fit [.long 6, .int 1] makeMethod.argumentTypes := .cons rfl (.cons rfl .nil)
  have hswap : ¬ Frame.Fit [.int 1, .long 6] makeMethod.argumentTypes := by
    rintro (_ | ⟨h, -⟩)
    cases h
  obtain ⟨g, hg, hholds⟩ := hfit sampleClass makeMethod _ rfl hargs
  obtain ⟨hactivation, hfirst, -⟩ := henter _ _ _ g hg
  obtain ⟨g', hg'⟩ : ∃ g', Frame.enter sampleClass makeMethod [.int 1, .long 6] = .ok g' := ⟨_, rfl⟩
  refine ⟨c, g, hr.trans hr', hg, hactivation, hfirst _ _ rfl, hholds, hswap, ⟨g', hg', ?_⟩,
    hinvoke 1 _ _ _⟩
  exact fun h => hswap ((henter _ _ _ g' hg').2.2.1 h)

end BytecodeMachine
