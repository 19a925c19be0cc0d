import BytecodeMachine.Proofs.CallTyping

namespace BytecodeMachine

theorem MethodAccess.isPrivate_of_visibility {a : MethodAccess} (h : a.visibility = .own) :
    a.isPrivate = true := by
  unfold visibility visibilityOf at h
  repeat' split at h
  all_goals first | assumption | cases h

theorem ClassTable.Closed.declaredMethod?_of_lookupMethod? {libraries : List Library}
    {table : ClassTable} (h : Closed libraries table) {c d : Class} {n : MemberName}
    {t : MethodType} {f : Method} (hc : table.get? c.name = some c)
    (hf : c.lookupMethod? n t = some f) (hd : table.get? f.owner = some d) :
    d.declaredMethod? n t = some f := by
  rw [Class.lookupMethod?_eq] at hf
  obtain ⟨k, hk, hkf⟩ := List.exists_of_findSome?_eq_some hf
  have hP (k : Class) (hk : table.get? k.name = some k) (s : Class) (hs : s ∈ k.above true) :
      table.get? s.name = some s := h.above hk hs
  have hknown : table.get? k.name = some k := by
    rcases List.mem_append.1 hk with hk | hk
    · exact Class.forall_chain_of_above hP c hc k hk
    · exact Class.forall_interfaceOrder hP c hc k hk
  rw [(h.methods hknown).2 f (List.mem_of_find?_eq_some hkf)] at hd
  cases hknown.symm.trans hd
  exact hkf

namespace Machine

variable {m m' : Machine} {ref : MethodRef} {a b : Class × Method}

structure Declares (m : Machine) (ref : MethodRef) (a : Class × Method) : Prop where
  owner : m.classes.get? a.2.owner = some a.1
  found : a.1.declaredMethod? ref.name ref.type = some a.2

theorem Grows.declares (h : m.Grows m') (ha : m.Declares ref a) : m'.Declares ref a :=
  ⟨h.classes _ _ ha.owner, ha.found⟩

theorem Sound.declares (hs : m.Sound) {c : Class} (hc : m.Has c)
    (hl : c.lookupMethod? ref.name ref.type = some a.2)
    (ho : m.classes.get? a.2.owner = some a.1) : m.Declares ref a :=
  ⟨ho, hs.closed.declaredMethod?_of_lookupMethod? hc hl ho⟩

structure Names (m : Machine) (ref : MethodRef) (x : Class) (a : Class × Method) : Prop where
  declares : m.Declares ref a
  found : ∃ c, m.classes.get? ref.klass = some c ∧ c.lookupMethod? ref.name ref.type = some a.2
  seen : x.seesMember a.1 a.2.access.visibility = true

theorem Grows.names (h : m.Grows m') {x : Class} (ha : m.Names ref x a) : m'.Names ref x a :=
  ⟨h.declares ha.declares, ha.found.imp fun _ hc => ⟨h.classes _ _ hc.1, hc.2⟩, ha.seen⟩

theorem Declares.name (ha : m.Declares ref a) (hs : m.Sound) : a.1.name = a.2.owner :=
  hs.closed.name ha.owner

-- A private method of the name and the type has no namesake in another class.
def PrivateApart (m : Machine) (ref : MethodRef) : Prop :=
  ∀ a b, m.Declares ref a → m.Declares ref b → a.2.access.visibility = .own → a.1 = b.1

theorem PrivateApart.eq (h : m.PrivateApart ref) (ha : m.Declares ref a) (hb : m.Declares ref b)
    (hv : a.2.access.visibility = .own) : a = b := by
  have hc := h a b ha hb hv
  refine Prod.ext hc (Option.some.inj ?_)
  rw [← ha.found, ← hb.found, hc]

end Machine

namespace Exec

variable {ref : MethodRef} {k : InvokeKind} {x : Class} {m : Machine} {arguments : List Value}
  {a : Class × Method} {i : Nat} {t : Thread} {s : Scene}

abbrev Choice := Class × Method × List Value

def chooseStatic (e : Engine) (owner : Class) (m : Method) : Exec Choice := do
  if !m.isStatic then
    raise (.methodNotStatic m.ref)
  e.setUp owner
  let arguments ← inFrame (.popMany m.type.parameters.length)
  pure (owner, m, arguments)

def chooseSpecial (ref : MethodRef) (owner : Class) (m : Method) : Exec Choice := do
  if m.isStatic then
    raise (.methodStatic m.ref)
  let (c, target) ← specialTarget ref owner m
  let arguments ← inFrame (.popMany (m.type.parameters.length + 1))
  let _ ← receiverOf target arguments
  if target.isAbstract then
    raise (.bodiless target.ref)
  pure (c, target, arguments)

def chooseTarget (ref : MethodRef) (runtime : Class) (arguments : List Value) :
    Option Method → Exec Choice
  | none => raise (.bodilessOn ref runtime.name)
  | some target => do
      if target.isStatic then
        raise (.methodStatic target.ref)
      let c ← loadClass target.owner
      pure (c, target, arguments)

def chooseDynamic (isInterface : Bool) (ref : MethodRef) (m : Method) : Exec Choice := do
  let arguments ← inFrame (.popMany (m.type.parameters.length + 1))
  let runtime ← classOf (← receiverOf m arguments)
  if isInterface then
    let interface ← loadClass ref.klass
    if !runtime.isAssignable interface then
      raise (.notImplemented runtime.name interface.name)
  chooseTarget ref runtime arguments (dynamicTarget? ref m runtime)

def choose (e : Engine) (k : InvokeKind) (ref : MethodRef) : Exec Choice := do
  let (owner, m) ← resolveMethod ref
  match k with
  | .static => chooseStatic e owner m
  | .special => chooseSpecial ref owner m
  | .virtual => chooseDynamic false ref m
  | .interface => chooseDynamic true ref m

def enterChoice (e : Engine) (c : Choice) : Exec Unit :=
  enterMethod e c.1 c.2.1 c.2.2

theorem raise_bind {α β : Type} (c : Cause) (f : α → Exec β) : raise c >>= f = raise c := rfl

theorem invokeStatic_eq (e : Engine) (owner : Class) (m : Method) :
    invokeStatic e owner m = chooseStatic e owner m >>= enterChoice e := by
  unfold invokeStatic chooseStatic
  cases m.isStatic <;> simp [bind_assoc, enterChoice]

theorem invokeSpecial_eq (e : Engine) (ref : MethodRef) (owner : Class) (m : Method) :
    invokeSpecial e ref owner m = chooseSpecial ref owner m >>= enterChoice e := by
  unfold invokeSpecial chooseSpecial
  cases m.isStatic with
  | true => simp only [if_true, raise_bind]
  | false =>
    simp only [Bool.false_eq_true, if_false, bind_assoc]
    refine bind_congr fun a => bind_congr fun arguments => bind_congr fun _ => ?_
    cases a.2.isAbstract <;> rfl

theorem invokeDynamic_eq (e : Engine) (isInterface : Bool) (ref : MethodRef) (m : Method) :
    invokeDynamic e isInterface ref m = chooseDynamic isInterface ref m >>= enterChoice e := by
  have dispatched (runtime : Class) (arguments : List Value) :
      (match dynamicTarget? ref m runtime with
        | none => raise (.bodilessOn ref runtime.name)
        | some target => do
            if target.isStatic then
              raise (.methodStatic target.ref)
            let c ← loadClass target.owner
            enterMethod e c target arguments : Exec Unit) =
      chooseTarget ref runtime arguments (dynamicTarget? ref m runtime) >>= enterChoice e := by
    cases dynamicTarget? ref m runtime with
    | none => rfl
    | some target =>
      unfold chooseTarget
      dsimp only
      cases target.isStatic with
      | true => rfl
      | false => simp [enterChoice]
  unfold invokeDynamic chooseDynamic
  cases isInterface with
  | false =>
    simp only [Bool.false_eq_true, if_false, bind_assoc]
    exact bind_congr fun arguments => bind_congr fun o => bind_congr fun runtime => dispatched _ _
  | true =>
    simp only [if_true, bind_assoc]
    refine bind_congr fun arguments => bind_congr fun o => bind_congr fun runtime => ?_
    refine bind_congr fun interface => ?_
    cases runtime.isAssignable interface with
    | false => rfl
    | true => exact dispatched _ _

theorem invoke_eq_choose (e : Engine) (k : InvokeKind) (ref : MethodRef) :
    invoke e k ref = choose e k ref >>= enterChoice e := by
  simp only [invoke, choose, bind_assoc]
  refine bind_congr fun a => ?_
  cases k with
  | static => exact invokeStatic_eq e a.1 a.2
  | special => exact invokeSpecial_eq e ref a.1 a.2
  | virtual => exact invokeDynamic_eq e false ref a.2
  | interface => exact invokeDynamic_eq e true ref a.2

-- The method that the reference is resolved to, or another one in its place if it is not private.
inductive Selected (x : Class) (k : InvokeKind) (ref : MethodRef) (m : Machine)
    (arguments : List Value) (a : Class × Method) : Prop
  | named (ha : m.Names ref x a)
  | above {b : Class × Method} (hb : m.Names ref x b) (hp : b.2.isPrivate = false)
      (hk : k = .special) (ha : m.Declares ref a)
      (hl : x.superclass.bind (·.lookupMethod? ref.name ref.type) = some a.2)
  | received {b : Class × Method} {o : ObjectId} {rest : List Value} {runtime : Class}
      (hb : m.Names ref x b) (hp : b.2.isPrivate = false) (hk : k = .virtual ∨ k = .interface)
      (ha : m.Declares ref a) (hargs : arguments = .object o :: rest) (ho : m.IsA o runtime)
      (hl : runtime.lookupMethod? ref.name ref.type = some a.2)

namespace Selected

theorem owner_of_private (h : Selected x k ref m arguments a) (hs : m.Sound)
    (hv : a.2.access.visibility = .own) :
    a.2.owner = x.name ∨ k ≠ .static ∧ m.Declares ref a ∧
      ∃ b, m.Names ref x b ∧ b.2.isPrivate = false := by
  cases h with
  | named ha =>
    have hsee := ha.seen
    rw [hv, Class.seesMember, decide_eq_true_eq, ha.declares.name hs] at hsee
    exact .inl hsee.symm
  | above hb hp hk ha => exact .inr ⟨hk ▸ nofun, ha, _, hb, hp⟩
  | received hb hp hk ha => exact .inr ⟨by rintro rfl; simp at hk, ha, _, hb, hp⟩

theorem owner_of_privateApart (h : Selected x k ref m arguments a) (hs : m.Sound)
    (hm : m.PrivateApart ref) (hv : a.2.access.visibility = .own) : a.2.owner = x.name := by
  rcases h.owner_of_private hs hv with ho | ⟨-, ha, b, hb, hp⟩
  · exact ho
  · cases hm.eq ha hb.declares hv
    cases hp.symm.trans (MethodAccess.isPrivate_of_visibility hv)

end Selected

theorem resolveMethod_names (hs : s.machine.Sound) (hx : t.context? = some x) :
    (resolveMethod ref).Meets (.deeds i) t (fun r t1 s1 =>
      (s.machine.Course s1.machine ∧ ∀ a, r = .ok a → s1.machine.Names ref x a) ∧ t.Kin t1) s := by
  refine Meets.and_free ?_ (resolveMethod_kin ref)
  rw [resolveMethod, meets_bind, meets_get, after_ok]
  have hr := Acts.resolve (m := s.machine) (Resolving.keeps_resolveMethod ref t.context?)
    fun a table table' hg h =>
      ⟨hg _ _ h.1, h.2.imp_left fun h => h.imp fun c hc => ⟨hg _ _ hc.1, hc.2⟩⟩
  refine (hr i t s hs (.refl _)).mono fun r t1 s1 h => ⟨h.1, fun a ha => ?_⟩
  obtain ⟨ho, ⟨c, hc, hl⟩, hv⟩ := h.2 a ha
  have hs1 := hs.course h.1
  exact ⟨hs1.declares (hs1.has hc) hl ho, ⟨c, hc, hl⟩, hv x hx⟩

abbrev Chooses (x : Class) (k : InvokeKind) (ref : MethodRef) : Post Choice :=
  fun r _ s => ∀ c, r = .ok c → s.machine.Sound ∧ Selected x k ref s.machine c.2.2 (c.1, c.2.1)

variable {c : Class} {f : Method}

theorem chooseStatic_chooses (bound : Nat) (hs : s.machine.Sound)
    (ha : s.machine.Names ref x (c, f)) :
    (chooseStatic (.bounded bound) c f).Meets (.deeds i) t (Chooses x k ref) s := by
  unfold chooseStatic
  dsimp only
  split
  · nofun
  · refine ((Engine.lawful_bounded bound).setUp _ c (hs.has ha.declares.owner)).kin_bind hs
      ((Engine.balanced_bounded bound).setUp c t i s) ?_ fun _ _ _ _ => nofun
    intro _ t1 s1 _ hc1 _
    refine meets_inFrame_bind (fun _ _ vs _ _ _ => ?_) fun _ _ _ => nofun
    rintro _ ⟨⟩
    exact ⟨hs.course hc1, .named (hc1.grows.names ha)⟩

theorem specialTarget_selects (hs : s.machine.Sound) (hx : t.context? = some x)
    (hk : s.machine.Has x) (ha : s.machine.Names ref x (c, f)) :
    (specialTarget ref c f).Meets (.deeds i) t (fun r _ s1 => ∀ a, r = .ok a →
      s1.machine.Sound ∧ ∀ arguments, Selected x .special ref s1.machine arguments a) s := by
  have same {t1 : Thread} {s1 : Scene} (hc : s.machine.Course s1.machine) :
      (pure (c, f) : Exec (Class × Method)).Meets (.deeds i) t1 (fun r _ s1 => ∀ a, r = .ok a →
        s1.machine.Sound ∧ ∀ arguments, Selected x .special ref s1.machine arguments a) s1 := by
    rintro _ ⟨⟩
    exact ⟨hs.course hc, fun _ => .named (hc.grows.names ha)⟩
  unfold specialTarget
  rw [meets_bind, meets_get, after_ok, hx]
  dsimp only
  split
  case isTrue => exact same .refl
  case isFalse hp =>
    refine (Acts.loadClass _).kin_bind hs (loadClass_kin _) ?_ fun _ _ _ _ => nofun
    intro named t1 s1 _ hc1 _
    have hs1 := hs.course hc1
    split
    · exact same hc1
    · split
      · nofun
      · rename_i found hfound
        obtain ⟨sup, hsup, hl⟩ := Option.bind_eq_some_iff.1 hfound
        refine (Acts.loadClass _).kin_bind hs1 (loadClass_kin _) ?_ fun _ _ _ _ => nofun
        rintro owner t2 s2 _ hc2 ho _ ⟨⟩
        have hs2 := hs1.course hc2
        have hg := hc1.grows.trans hc2.grows
        have hsup2 := hs2.closed.above (hg.has hk) (Class.mem_above_of_superclass hsup true)
        have hp' : f.isPrivate = false ∧ f.name ≠ .constructor := by simpa using hp
        refine ⟨hs2, fun _ => ?_⟩
        exact .above (hg.names ha) hp'.1 rfl (hs2.declares hsup2 hl ho.1) hfound

theorem chooseSpecial_chooses (hs : s.machine.Sound) (hx : t.context? = some x)
    (hk : s.machine.Has x) (ha : s.machine.Names ref x (c, f)) :
    (chooseSpecial ref c f).Meets (.deeds i) t (Chooses x .special ref) s := by
  unfold chooseSpecial
  dsimp only
  split
  · nofun
  · refine meets_bind.2 ((specialTarget_selects hs hx hk ha).mono fun r t1 s1 h => ?_)
    cases r with
    | error trap => nofun
    | ok a =>
      obtain ⟨hs1, hsel⟩ := h a rfl
      refine meets_inFrame_bind (fun _ _ vs _ _ _ => ?_) fun _ _ _ => nofun
      refine receiverOf_bind (fun _ _ _ => ?_) fun _ => nofun
      split
      · nofun
      · rintro _ ⟨⟩
        exact ⟨hs1, hsel vs⟩

theorem chooseTarget_chooses (hs : s.machine.Sound) {runtime : Class} {o : ObjectId}
    {rest : List Value} (ha : s.machine.Names ref x (c, f)) (hk : k = .virtual ∨ k = .interface)
    (hargs : arguments = .object o :: rest) (ho : s.machine.IsA o runtime)
    (hr : s.machine.Has runtime) :
    (chooseTarget ref runtime arguments (dynamicTarget? ref f runtime)).Meets (.deeds i) t
      (Chooses x k ref) s := by
  cases htarget : dynamicTarget? ref f runtime with
  | none => nofun
  | some target =>
    unfold chooseTarget
    dsimp only
    split
    · nofun
    · refine (Acts.loadClass _).kin_bind hs (loadClass_kin _) ?_ fun _ _ _ _ => nofun
      rintro d t1 s1 _ hc1 hd _ ⟨⟩
      have hs1 := hs.course hc1
      have ha1 := hc1.grows.names ha
      have hfound := (Option.filter_eq_some_iff.1 htarget).1
      refine ⟨hs1, ?_⟩
      split at hfound
      case isTrue =>
        cases hfound
        cases ha1.declares.owner.symm.trans hd.1
        exact .named ha1
      case isFalse hp =>
        have ha' : s1.machine.Declares ref (d, target) :=
          hs1.declares (hc1.grows.has hr) hfound hd.1
        exact .received ha1 (by simpa using hp) hk ha' hargs (hc1.grows.isA ho) hfound

theorem chooseDynamic_chooses (isInterface : Bool) (hs : s.machine.Sound)
    (ha : s.machine.Names ref x (c, f)) (hk : k = .virtual ∨ k = .interface) :
    (chooseDynamic isInterface ref f).Meets (.deeds i) t (Chooses x k ref) s := by
  refine meets_inFrame_bind (fun _ _ vs _ _ _ => ?_) fun _ _ _ => nofun
  refine receiverOf_bind (fun o others hargs => ?_) fun _ => nofun
  refine (Acts.classOf o).kin_bind hs (classOf_kin o) ?_ fun _ _ _ _ => nofun
  intro runtime t1 s1 _ hc1 ho
  have hs1 := hs.course hc1
  have ha1 := hc1.grows.names ha
  dsimp only
  split
  · refine (Acts.loadClass _).kin_bind hs1 (loadClass_kin _) ?_ fun _ _ _ _ => nofun
    intro interface t2 s2 _ hc2 _
    have hg := hc2.grows
    split
    · nofun
    · exact chooseTarget_chooses (hs1.course hc2) (hg.names ha1) hk hargs (hg.isA ho.1)
        (hg.has ho.2)
  · exact chooseTarget_chooses hs1 ha1 hk hargs ho.1 ho.2

theorem choose_chooses (bound : Nat) (hs : s.machine.Sound) (hx : t.context? = some x)
    (hk : s.machine.Has x) (k : InvokeKind) (ref : MethodRef) :
    (choose (.bounded bound) k ref).Meets (.deeds i) t (Chooses x k ref) s := by
  refine meets_bind.2 ((resolveMethod_names hs hx).mono fun r t1 s1 h => ?_)
  cases r with
  | error trap => nofun
  | ok a =>
    obtain ⟨⟨hc1, ha⟩, hkin⟩ := h
    have ha := ha a rfl
    have hs1 := hs.course hc1
    have hx1 : t1.context? = some x := by
      rw [← hx, Thread.context?, Thread.activation?, hkin.frames]
      rfl
    cases k with
    | static => exact chooseStatic_chooses bound hs1 ha
    | special => exact chooseSpecial_chooses hs1 hx1 (hc1.grows.has hk) ha
    | virtual => exact chooseDynamic_chooses false hs1 ha (.inl rfl)
    | interface => exact chooseDynamic_chooses true hs1 ha (.inr rfl)

end Exec

-- A private method that is chosen is the caller's own, or it stands in for one that is not private.
def Exec.KeepsPrivate (x : Class) (kind : InvokeKind) (ref : MethodRef) : Exec.Post Exec.Choice :=
  fun r _ s => ∀ k f arguments, r = .ok (k, f, arguments) →
    Exec.Selected x kind ref s.machine arguments (k, f) ∧
      (f.access.visibility = .own →
        (f.owner = x.name ∨
          kind ≠ .static ∧ ∃ b, s.machine.Names ref x b ∧ b.2.isPrivate = false) ∧
        (s.machine.PrivateApart ref → f.owner = x.name))

theorem Engine.private_calls_stay (bound : Nat) (libraries : List Library) (natives : NativeTable)
    (settings : Settings) (stdout stderr : Pipe) (journal : Journal) (name : Nat → String)
    (demands : Nat → List Demand) {c : Pool (Except Trap Unit × Thread) × Scene}
    (hr : Pool.Run Machine.Rests ((bounded bound).sessions name demands,
      .start libraries natives settings stdout stderr journal) c) :
    (∀ kind ref, Exec.invoke (.bounded bound) kind ref =
      Exec.choose (.bounded bound) kind ref >>= Exec.enterChoice (.bounded bound)) ∧
    ∀ i t x, t.context? = some x → c.2.machine.Has x → ∀ kind ref,
      (Exec.choose (.bounded bound) kind ref).Meets (.deeds i) t (Exec.KeepsPrivate x kind ref)
        c.2 := by
  have h := ((kept_sessions bound libraries natives settings stdout stderr journal name
    demands).run hr).2
  refine ⟨Exec.invoke_eq_choose _, fun i t x hx hk kind ref => ?_⟩
  refine (Exec.choose_chooses bound h.sound hx hk kind ref).mono ?_
  intro r _ s' hr k f arguments he
  obtain ⟨hs, hsel⟩ := hr (k, f, arguments) he
  refine ⟨hsel, fun hv => ⟨?_, fun hm => hsel.owner_of_privateApart hs hm hv⟩⟩
  exact (hsel.owner_of_private hs hv).imp_right fun h => ⟨h.1, h.2.2⟩

theorem CoreLibrary.load_object :
    ∃ c, (ClassTable.load [library] [] .object []).1 = .ok c := by
  have hd : ClassTable.define [library] .object =
      .ok ⟨[], ClassTable.regular .object object none⟩ := rfl
  rw [ClassTable.load_of_define rfl (by simp) hd, ClassTable.loadLinks]
  exact ⟨_, rfl⟩

theorem Engine.private_calls_stay_in_object :
    ∃ (c : Pool (Except Trap Unit × Thread) × Scene) (t : Thread) (x : Class),
      Pool.Run Machine.Rests ((bounded 5).sessions (fun _ => "main") fun _ => [.setUp .object],
        .start [] .standard .standard .sound .sound (.ofVerbosity none)) c ∧
      t.context? = some x ∧ c.2.machine.Has x ∧ ∀ i kind ref,
        (Exec.choose (.bounded 5) kind ref).Meets (.deeds i) t (Exec.KeepsPrivate x kind ref)
          c.2 := by
  have hs : Pool.Step Machine.Rests ((bounded 5).sessions (fun _ => "main") fun _ =>
      [.setUp .object], .start [] .standard .standard .sound .sound (.ofVerbosity none)) _ :=
    .thread 1 (.step _ _ _)
  obtain ⟨x, hx⟩ := CoreLibrary.load_object
  let run : Frame := { Frame.blank with
    activation := some ⟨x, ⟨.object, .constructor, ⟨[], none⟩, default, none⟩⟩ }
  let t : Thread := { Thread.start 1 "main" with frames := [run] }
  have hsound := ((kept_sessions 5 [] .standard .standard .sound .sound (.ofVerbosity none)
    (fun _ => "main") (fun _ => [.setUp .object])).run (.single hs)).2.sound
  have hk := hsound.has (Machine.of_resolve (Resolving.finds_loadClass .object) hx)
  have h := private_calls_stay 5 [] .standard .standard .sound .sound (.ofVerbosity none)
    (fun _ => "main") (fun _ => [.setUp .object]) (.single hs)
  exact ⟨_, t, x, .single hs, rfl, hk, fun i => h.2 i t x rfl hk⟩

end BytecodeMachine
