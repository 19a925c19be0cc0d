import BytecodeMachine.Proofs.Completion
import BytecodeMachine.Proofs.Loading.CoreClasses
import BytecodeMachine.Proofs.Lookup.Methods
import BytecodeMachine.Proofs.PrivateCalls

namespace BytecodeMachine

open Relation

variable {α β : Type}

namespace Exec.IsPrompt

theorem receiverOf (m : Method) (arguments : List Value) : (Exec.receiverOf m arguments).IsPrompt := by
  unfold Exec.receiverOf
  split
  · exact pure _
  · exact raise _
  · exact fail _

theorem specialTarget (ref : MethodRef) (c : Class) (m : Method) :
    (Exec.specialTarget ref c m).IsPrompt := by
  refine get.bind fun t => ?_
  split
  · exact pure _
  · split
    · exact pure _
    · refine (resolve _).bind fun named => ?_
      split
      · exact pure _
      · split
        · exact raise _
        · exact (resolve _).bind fun owner => pure _

theorem chooseSpecial (ref : MethodRef) (c : Class) (m : Method) :
    (Exec.chooseSpecial ref c m).IsPrompt := by
  unfold Exec.chooseSpecial
  dsimp only
  split
  · exact raise _
  · refine (specialTarget ref c m).bind fun a => (inFrame _).bind fun arguments => ?_
    refine (receiverOf a.2 arguments).bind fun _ => ?_
    split
    · exact raise _
    · exact pure _

theorem choose_special (e : Engine) (ref : MethodRef) : (choose e .special ref).IsPrompt :=
  (get.bind fun _ => resolve _).bind fun a => chooseSpecial ref a.1 a.2

end Exec.IsPrompt

namespace Class

variable {c d e k s x named : Class} {ref : MethodRef} {n : MemberName} {t : MethodType}
  {f g : Method}

theorem chain_subset_of_mem (h : k ∈ c.chain) :
    k.chain ++ k.interfaceOrder ⊆ c.chain ++ c.interfaceOrder := by
  obtain ⟨below, hb⟩ := chain_of_mem_chain h
  refine List.append_subset.2 ⟨?_, ?_⟩
  · rw [hb]
    exact fun j hj => List.mem_append_left _ (List.mem_append_right _ hj)
  · exact fun j hj => List.mem_append_right _ (interfaceOrder_subset_of_mem_chain h hj)

theorem exists_lookupMethod?_of_mem_chain (h : k ∈ c.chain) (hk : k.lookupMethod? n t = some f) :
    ∃ g, c.lookupMethod? n t = some g := by
  rw [lookupMethod?_eq] at hk ⊢
  obtain ⟨j, hj, hf⟩ := List.exists_of_findSome?_eq_some hk
  rw [← Option.isSome_iff_exists, List.findSome?_isSome_iff]
  exact ⟨j, chain_subset_of_mem h hj, by rw [hf]; rfl⟩

inductive Special (x named : Class) (ref : MethodRef) (d : Class) (f : Method) :
    Class → Method → Prop
  | exempt (h : f.isPrivate = true ∨ f.name = .constructor) : Special x named ref d f d f
  | own (hp : f.isPrivate = false) (hn : f.name ≠ .constructor) (h : named = x) :
      Special x named ref d f d f
  | above {s e : Class} {g : Method} (hp : f.isPrivate = false) (hn : f.name ≠ .constructor)
      (hx : x.superclass = some s) (h : named ∈ s.chain)
      (hg : s.lookupMethod? ref.name ref.type = some g) (he : ReflTransGen Under s e)
      (hd : e.declaredMethod? ref.name ref.type = some g) : Special x named ref d f e g

theorem exists_special (h : named ∈ x.chain) (hf : named.lookupMethod? ref.name ref.type = some f) :
    ∃ e g, Special x named ref d f e g := by
  by_cases hp : f.isPrivate = true ∨ f.name = .constructor
  · exact ⟨d, f, .exempt hp⟩
  · simp only [not_or, Bool.not_eq_true] at hp
    rw [chain_eq_cons] at h
    rcases List.mem_cons.1 h with hx | h
    · exact ⟨d, f, .own hp.1 hp.2 hx⟩
    · cases hs : x.superclass with
      | none => simp [chain_of_root hs] at h
      | some s =>
        have h : named ∈ s.chain := by simpa [chain_of_superclass hs] using h
        obtain ⟨g, hg⟩ := exists_lookupMethod?_of_mem_chain h hf
        obtain ⟨e, he, hd⟩ := exists_under_of_lookupMethod? hg
        exact ⟨e, g, .above hp.1 hp.2 hs h hg he hd⟩

theorem Special.eq_of_exempt (h : Special x named ref d f e g)
    (hf : f.isPrivate = true ∨ f.name = .constructor) : (e, g) = (d, f) := by
  cases h with
  | exempt => rfl
  | own => rfl
  | above hp hn => simp [hp, hn] at hf

theorem Special.lookup (h : Special x named ref d f e g) (hp : f.isPrivate = false)
    (hn : f.name ≠ .constructor) (hf : named.lookupMethod? ref.name ref.type = some f) :
    (named = x → x.lookupMethod? ref.name ref.type = some g) ∧
      (named ≠ x → ∃ s, x.superclass = some s ∧ s.lookupMethod? ref.name ref.type = some g) := by
  cases h with
  | exempt he => simp [hp, hn] at he
  | own _ _ hx =>
    subst hx
    exact ⟨fun _ => hf, fun hne => absurd rfl hne⟩
  | above _ _ hs hmem hg =>
    refine ⟨fun he => ?_, fun _ => ⟨_, hs, hg⟩⟩
    subst he
    refine absurd ?_ named.not_mem_tail_chain
    rwa [chain_of_superclass hs]

-- Where a superclass is named, what the call comes down to is strictly above the caller.
theorem Special.transGen (h : Special x named ref d f e g) (hn : named ∈ x.chain)
    (hne : named ≠ x) (hd : ReflTransGen Under named d) : TransGen Under x e := by
  have hnamed : TransGen Under x named :=
    (reflTransGen_iff_eq_or_transGen.1 (under_of_mem_chain hn)).resolve_left hne
  cases h with
  | exempt => exact hnamed.trans_left hd
  | own => exact hnamed.trans_left hd
  | above _ _ hx _ _ he => exact .head' (under_of_superclass hx) he

end Class

namespace ClassTable

variable {libraries : List Library} {table : ClassTable} {c d e k x named : Class} {n : MemberName}
  {t : MethodType} {f g : Method} {ref : MethodRef} {context : Option Class}

theorem Closed.owner_of_declares (h : Closed libraries table) (hc : table.get? c.name = some c)
    (hk : ReflTransGen Class.Under c k) (hg : k.declaredMethod? n t = some g) :
    table.get? g.owner = some k := by
  have hget := h.registered hc hk
  rwa [(h.methods hget).2 g (List.mem_of_find?_eq_some hg)]

theorem not_under_of_transGen (h : TransGen Class.Under x k) : ¬ ReflTransGen Class.Under k x := by
  intro hk
  have hcycle : TransGen Class.Holds x x :=
    (h.trans_left hk).lift id fun _ _ hs => Class.mem_linked_of_above hs
  exact Nat.lt_irrefl _ (sizeOf_lt_of_transGen hcycle)

end ClassTable

namespace Resolving

open ClassTable

variable {libraries : List Library} {table : ClassTable} {c d x : Class} {f : Method}
  {ref : MethodRef}

def verdict (x c d : Class) (f : Method) : Except LinkError (Class × Method) :=
  if x.seesClass c.innermost then
    if x.seesMember d f.access.visibility then .ok (d, f)
    else .error (.illegalAccess f.text x.name)
  else .error (.illegalAccess c.innermost.name.text x.name)

theorem resolveMethod_of_get? (hc : table.get? ref.klass = some c)
    (hf : c.lookupMethod? ref.name ref.type = some f) (hd : table.get? f.owner = some d) :
    resolveMethod libraries ref (some x) table = (verdict x c d f, table) := by
  have hclass : loadClass libraries ref.klass table = (.ok c, table) := load_of_get? hc
  have howner : loadClass libraries f.owner table = (.ok d, table) := load_of_get? hd
  rw [resolveMethod, resolveClass, bind_assoc, bind_apply, hclass, verdict]
  dsimp only
  rw [bind_assoc, bind_apply, checkClass]
  cases x.seesClass c.innermost with
  | false => rfl
  | true =>
    simp only [if_true, pure_bind, hf]
    change (loadClass libraries f.owner >>= _) table = _
    rw [bind_apply, howner]
    dsimp only
    rw [checkMember]
    cases x.seesMember d f.access.visibility <;> rfl

end Resolving

theorem Machine.resolve_of_kept {m : Machine} {res : List Library → Resolving α}
    {r : Except LinkError α} (h : res m.libraries m.classes = (r, m.classes)) :
    m.resolve res = (r, m) := by
  simp only [resolve, h, List.drop_length]
  rfl

namespace Exec

variable {x named d e : Class} {f g : Method} {ref : MethodRef} {i : Nat} {t : Thread} {s : Scene}

theorem meets_resolve_known {res : List Library → Resolving α} {a : α} {Q : Post α}
    (hs : s.machine.Sound)
    (hres : ∀ m, s.machine.Course m → res m.libraries m.classes = (.ok a, m.classes))
    (hq : ∀ s1, s.machine.Course s1.machine → Q (.ok a) t s1) :
    (resolve res).Meets (.deeds i) t Q s := by
  refine meets_resolve.2 fun s1 hr => ?_
  have hc := hr hs
  dsimp only
  rw [Machine.resolve_of_kept (hres s1.machine hc)]
  exact ⟨fun _ => .rest (.refl _), hq s1 hc⟩

theorem meets_loadClass_known {n : ClassName} {Q : Post Class} (hs : s.machine.Sound)
    (hn : s.machine.classes.get? n = some d)
    (hq : ∀ s1, s.machine.Course s1.machine → Q (.ok d) t s1) :
    (loadClass n).Meets (.deeds i) t Q s :=
  meets_resolve_known hs (fun _ hc => ClassTable.load_of_get? (hc.grows.classes _ _ hn)) hq

theorem meets_specialTarget (hs : s.machine.Sound) (hx : t.context? = some x)
    (hk : s.machine.Has x) (hn : named ∈ x.chain) (hr : named.name = ref.klass)
    (h : Class.Special x named ref d f e g) :
    (specialTarget ref d f).Meets (.deeds i) t (fun r t1 _ => r = .ok (e, g) ∧ t1 = t) s := by
  have hget := (hs.closed.chain hk named hn).1
  unfold specialTarget
  rw [meets_bind, meets_get, after_ok, hx]
  dsimp only
  cases h with
  | exempt h =>
    rw [if_pos (by simpa using h)]
    exact ⟨rfl, rfl⟩
  | own hp hf h =>
    subst h
    rw [if_neg (by simp [hp, hf])]
    refine meets_bind.2 (meets_loadClass_known hs (hr ▸ hget) fun s1 _ => ?_)
    have hself : ¬ named.isSubclassOf named = true := by
      rw [hs.closed.isSubclassOf_iff hget hget]
      exact named.not_mem_tail_chain
    rw [after_ok, if_pos (by simpa using hself)]
    exact ⟨rfl, rfl⟩
  | @above sup _ _ hp hf hsup h hg he hd =>
    rw [if_neg (by simp [hp, hf])]
    refine meets_bind.2 (meets_loadClass_known hs (hr ▸ hget) fun s1 hc1 => ?_)
    have hsub : x.isSubclassOf named = true := by
      rw [hs.closed.isSubclassOf_iff hget hk, Class.chain_of_superclass hsup]
      exact h
    rw [after_ok, if_neg (by simp [hsub]), hsup, Option.bind_some, hg]
    have hs1 := hs.course hc1
    have hsup1 := hs1.closed.above (hc1.grows.has hk) (Class.under_of_superclass hsup)
    refine meets_bind.2 (meets_loadClass_known hs1 (hs1.closed.owner_of_declares hsup1 he hd) ?_)
    exact fun s2 _ => ⟨rfl, rfl⟩

theorem meets_chooseSpecial {frame : Frame} {rest : List Frame} {below arguments : List Value}
    {o : ObjectId} (hs : s.machine.Sound) (hx : t.context? = some x) (hk : s.machine.Has x)
    (hn : named ∈ x.chain) (hr : named.name = ref.klass) (h : Class.Special x named ref d f e g)
    (hf : f.isStatic = false) (hframes : t.frames = frame :: rest)
    (hstack : frame.stack = (.object o :: arguments).reverse ++ below)
    (hlen : arguments.length = f.type.parameters.length) :
    (chooseSpecial ref d f).Meets (.deeds i) t (fun r _ _ =>
      r = if g.isAbstract then .error (.raise (.bodiless g.ref))
        else .ok (e, g, .object o :: arguments)) s := by
  unfold chooseSpecial
  rw [hf]
  refine meets_bind.2 ((meets_specialTarget hs hx hk hn hr h).mono ?_)
  rintro _ _ s1 ⟨rfl, rfl⟩
  rw [after_ok]
  refine meets_bind.2 ((meets_inFrame_cons hframes).2 ?_)
  rw [FrameM.run_popMany hstack (by simpa using hlen), after_ok]
  cases hg : g.isAbstract with
  | false => exact rfl
  | true => exact rfl

end Exec

namespace Machine

def Reached (libraries : List Library) (s : Scene) : Prop :=
  ∃ (bound : Nat) (natives : NativeTable) (settings : Settings) (stdout stderr : Pipe)
    (journal : Journal) (name : Nat → String) (demands : Nat → List Demand)
    (pool : Pool (Except Trap Unit × Thread)),
    Pool.Run Machine.Rests ((Engine.bounded bound).sessions name demands,
      .start libraries natives settings stdout stderr journal) (pool, s)

theorem Reached.sound {libraries : List Library} {s : Scene} (h : Reached libraries s) :
    s.machine.Sound := by
  obtain ⟨bound, natives, settings, stdout, stderr, journal, name, demands, pool, hr⟩ := h
  exact ((Engine.kept_sessions bound libraries natives settings stdout stderr journal name
    demands).run hr).2.sound

variable {x named d e : Class} {f g : Method} {ref : MethodRef} {m : Machine}

theorem fst_resolve_of_get? (hc : m.classes.get? ref.klass = some named)
    (hf : named.lookupMethod? ref.name ref.type = some f) (hd : m.classes.get? f.owner = some d) :
    (m.resolve fun l => .resolveMethod l ref (some x)).1 = Resolving.verdict x named d f := by
  change (Resolving.resolveMethod m.libraries ref (some x) m.classes).1 = _
  rw [Resolving.resolveMethod_of_get? hc hf hd]

theorem resolved_everywhere (hs : m.Sound) (hx : m.Has x) (hn : named ∈ x.chain)
    (hr : named.name = ref.klass)
    (hres : (m.resolve fun l => .resolveMethod l ref (some x)).1 = .ok (d, f)) :
    named.lookupMethod? ref.name ref.type = some f ∧ ReflTransGen Class.Under named d ∧
      m.Declares ref (d, f) ∧ ∀ m' : Machine, m'.Sound → m'.Has x →
        Resolving.resolveMethod m'.libraries ref (some x) m'.classes = (.ok (d, f), m'.classes) := by
  have known (m' : Machine) (hs' : m'.Sound) (hx' : m'.Has x) :
      m'.Has named ∧ m'.classes.get? ref.klass = some named := by
    have hnamed : m'.Has named := (hs'.closed.chain hx' named hn).1
    exact ⟨hnamed, hr ▸ hnamed⟩
  obtain ⟨hnamed, hget⟩ := known m hs hx
  obtain ⟨hloaded, hfound⟩ := Resolving.keeps_resolveMethod ref (some x) m.libraries m.classes
  obtain ⟨hd, ⟨c, hc, hl⟩, -⟩ := hfound (d, f) hres
  cases (hloaded.grows _ _ hget).symm.trans hc
  obtain ⟨k, hk, hfk⟩ := Class.exists_under_of_lookupMethod? hl
  have howner := hs.closed.owner_of_declares hnamed hk hfk
  cases (hloaded.grows _ _ howner).symm.trans hd
  have hverdict : Resolving.verdict x named d f = .ok (d, f) := by
    rw [← hres]
    exact (fst_resolve_of_get? hget hl howner).symm
  refine ⟨hl, hk, ⟨howner, hfk⟩, fun m' hs' hx' => ?_⟩
  obtain ⟨hnamed', hget'⟩ := known m' hs' hx'
  rw [← hverdict]
  exact Resolving.resolveMethod_of_get? hget' hl (hs'.closed.owner_of_declares hnamed' hk hfk)

theorem Sound.declares_special (hs : m.Sound) (hx : m.Has x) (hd : m.Declares ref (d, f))
    (h : Class.Special x named ref d f e g) : m.Declares ref (e, g) := by
  cases h with
  | exempt => exact hd
  | own => exact hd
  | above _ _ hsup _ _ he hd =>
    have hget := hs.closed.above hx (Class.under_of_superclass hsup)
    exact ⟨hs.closed.owner_of_declares hget he hd, hd⟩

end Machine

open Exec in
theorem Engine.special_calls_ignore_receivers {libraries : List Library} {s : Scene}
    {x named d : Class} {f : Method} {ref : MethodRef} (hs : Machine.Reached libraries s)
    (hx : s.machine.Has x) (hn : named ∈ x.chain) (hr : named.name = ref.klass)
    (hres : (s.machine.resolve fun l => .resolveMethod l ref (some x)).1 = .ok (d, f))
    (hf : f.isStatic = false) :
    ∃ e g, s.machine.Declares ref (e, g) ∧
      (f.isPrivate = true ∨ f.name = .constructor → (e, g) = (d, f)) ∧
      (f.isPrivate = false → f.name ≠ .constructor →
        (ref.klass = x.name → x.lookupMethod? ref.name ref.type = some g) ∧
        (ref.klass ≠ x.name →
          ∃ k, x.superclass = some k ∧ k.lookupMethod? ref.name ref.type = some g)) ∧
      (ref.klass ≠ x.name → ¬ ReflTransGen Class.Under e x) ∧
      ∀ bound s', Machine.Reached libraries s' → s'.machine.Has x →
        Exec.invoke (.bounded bound) .special ref =
          Exec.choose (.bounded bound) .special ref >>= Exec.enterChoice (.bounded bound) ∧
        (Exec.choose (.bounded bound) .special ref).IsPrompt ∧
        ∀ i t frame rest o arguments below, t.context? = some x → t.frames = frame :: rest →
          frame.stack = (.object o :: arguments).reverse ++ below →
          arguments.length = ref.type.parameters.length →
            (Exec.choose (.bounded bound) .special ref).Meets (.deeds i) t (fun r _ _ =>
              r = if g.isAbstract then .error (.raise (.bodiless g.ref))
                else .ok (e, g, .object o :: arguments)) s' := by
  have hsound := hs.sound
  obtain ⟨hl, hunder, hdecl, hall⟩ := Machine.resolved_everywhere hsound hx hn hr hres
  have hown : ref.klass = x.name ↔ named = x := by
    rw [← hr]
    refine ⟨fun he => ?_, congrArg _⟩
    have hget := (hsound.closed.chain hx named hn).1
    rw [he] at hget
    exact Option.some.inj (hget.symm.trans hx)
  obtain ⟨e, g, h⟩ := Class.exists_special (d := d) hn hl
  refine ⟨e, g, hsound.declares_special hx hdecl h, h.eq_of_exempt, ?_, ?_, ?_⟩
  · intro hp hc
    rw [Ne, hown]
    exact h.lookup hp hc hl
  · rw [Ne, hown]
    exact fun hne => ClassTable.not_under_of_transGen (h.transGen hn hne hunder)
  · intro bound s' hs' hx'
    refine ⟨Exec.invoke_eq_choose _ _ _, .choose_special _ _, ?_⟩
    intro i t frame rest o arguments below hcontext hframes hstack hlen
    have hsound' := hs'.sound
    have ht : f.type = ref.type := (Class.mem_of_lookupMethod? hl).2.1
    refine meets_bind.2 (meets_bind.2 (meets_get.2 ?_))
    rw [after_ok, hcontext]
    refine meets_resolve_known hsound' (fun m hc => hall m (hsound'.course hc) (hc.grows.has hx'))
      fun s1 hc1 => ?_
    rw [after_ok]
    exact meets_chooseSpecial (hsound'.course hc1) hcontext (hc1.grows.has hx') hn hr h hf hframes
      hstack (ht ▸ hlen)

open CoreLibrary in
theorem Engine.special_calls_ignore_receivers_of_string :
    ∃ (s : Scene) (t : ObjectId → Thread) (e : Class) (g : Method), Machine.Reached [] s ∧
      s.machine.Has stringRecord ∧ (∀ o, (t o).context? = some stringRecord) ∧
      objectRecord.lookupMethod? ⟨"equals"⟩ ⟨[any], some boolean⟩ = some g ∧
      ¬ ReflTransGen Class.Under e stringRecord ∧
      ∀ i o, (Exec.choose (.bounded 5) .special ⟨.object, ⟨"equals"⟩, ⟨[any], some boolean⟩⟩).Meets
        (.deeds i) (t o) (fun r _ _ => r = if g.isAbstract then .error (.raise (.bodiless g.ref))
          else .ok (e, g, [.object o, .ref none])) s := by
  have hrun : Pool.Step Machine.Rests ((bounded 5).sessions (fun _ => "main") fun _ =>
      [.setUp .string], .start [] .standard .standard .sound .sound (.ofVerbosity none)) _ :=
    .thread 1 (.step _ _ _)
  let ref : MethodRef := ⟨.object, ⟨"equals"⟩, ⟨[any], some boolean⟩⟩
  have hs : Machine.Reached [] _ := ⟨5, .standard, .standard, .sound, .sound, .ofVerbosity none,
    fun _ => "main", fun _ => [.setUp .string], _, .single hrun⟩
  have hload : (ClassTable.load [library] [] .string []).1 = .ok stringRecord :=
    load_record (ClassTable.closed_nil _) rfl
  have hx := hs.sound.has (Machine.of_resolve (Resolving.finds_loadClass .string) hload)
  obtain ⟨f, hf, howner, hstatic, hp, hn, hverdict⟩ :
      ∃ f, objectRecord.lookupMethod? ref.name ref.type = some f ∧ f.owner = .object ∧
      f.isStatic = false ∧ f.isPrivate = false ∧ f.name ≠ .constructor ∧
      Resolving.verdict stringRecord objectRecord objectRecord f = .ok (objectRecord, f) :=
    ⟨_, rfl, rfl, rfl, rfl, by decide, rfl⟩
  have hobject : objectRecord ∈ stringRecord.chain := List.mem_cons_of_mem _ List.mem_cons_self
  have hget := (hs.sound.closed.chain hx objectRecord hobject).1
  have hres := (Machine.fst_resolve_of_get? hget hf (howner ▸ hget)).trans hverdict
  obtain ⟨e, g, -, -, hg, hnot, hall⟩ :=
    special_calls_ignore_receivers hs hx hobject (show _ = ref.klass from rfl) hres hstatic
  have hne : ref.klass ≠ stringRecord.name := by decide
  obtain ⟨k, hk, hg⟩ := (hg hp hn).2 hne
  cases hk
  let t (o : ObjectId) : Thread := { Thread.start 1 "main" with
    frames := [{ Frame.blank with
      activation := some ⟨stringRecord, ⟨.string, ⟨"m"⟩, ⟨[], none⟩, default, none⟩⟩
      stack := [.ref none, .object o] }] }
  obtain ⟨-, -, hmeets⟩ := hall 5 _ hs hx
  refine ⟨_, t, e, g, hs, hx, fun _ => rfl, hg, hnot hne, fun i o => ?_⟩
  exact hmeets i (t o) _ _ o [.ref none] [] rfl rfl rfl rfl

end BytecodeMachine
