import BytecodeMachine.Proofs.Typing.Operands
import BytecodeMachine.Proofs.Typing.Runs

namespace BytecodeMachine

namespace Machine

variable {m m' : Machine}

def Stored (m : Machine) : Prop :=
  ∀ place v, m.statics.get? place = some v → ∃ c f, m.Has c ∧ f ∈ c.fields ∧ f.isStatic = true ∧
    (f.owner, f.index) = place ∧ Suits f v

theorem stored_start (libraries : List Library) (natives : NativeTable) (settings : Settings)
    (stdout stderr : Pipe) (journal : Journal) :
    (Scene.start libraries natives settings stdout stderr journal).machine.Stored :=
  fun _ _ h => by cases h

theorem Stored.of_grows (h : m.Stored) (hg : m.Grows m') (hs : m'.statics = m.statics) :
    m'.Stored := by
  intro place v hv
  obtain ⟨c, f, hc, hf⟩ := h place v (hs ▸ hv)
  exact ⟨c, f, hg.has hc, hf⟩

theorem Stored.deed (h : m.Stored) (hd : m.Deed m') : m'.Stored := by
  have hg := hd.grows
  cases hd with
  | rest hr => exact h.of_grows hg hr.statics
  | object => exact h.of_grows hg rfl
  | array => exact h.of_grows hg rfl
  | elements => exact h.of_grows hg rfl
  | slot => exact h.of_grows hg rfl
  | @static c f v hc hf hs hv =>
    intro place w hw
    rw [setStatic, Entries.get?_put] at hw
    split at hw
    · rename_i hplace
      cases hw
      exact ⟨c, f, hc, hf, hs, hplace, hv⟩
    · exact h place w hw

theorem Stored.course (h : m.Stored) (hc : m.Course m') : m'.Stored := by
  induction hc with
  | refl => exact h
  | tail _ hd ih => exact ih.deed hd

-- Two fields in one place are the same, for the place names the class and is unique within it.
theorem Sound.field_eq (h : m.Sound) {c d : Class} {f g : Field} (hc : m.Has c) (hd : m.Has d)
    (hf : f ∈ c.fields) (hg : g ∈ d.fields) (ho : f.owner = g.owner) (hi : f.index = g.index) :
    f = g := by
  have hp := h.closed.placed hc
  have hname : c.name = d.name :=
    (hp.owner f hf).symm.trans (ho.trans ((h.closed.placed hd).owner g hg))
  have hcd : c = d := Option.some.inj (hc.symm.trans (hname ▸ hd))
  subst hcd
  exact hp.index f hf g hg hi

theorem Stored.static (h : m.Stored) (hm : m.Sound) {c : Class} {f : Field} (hc : m.Has c)
    (hf : f ∈ c.fields) : Suits f (m.static f) := by
  unfold Machine.static
  cases hv : m.statics.get? (f.owner, f.index) with
  | none => exact .inl (Value.fits_default f.type)
  | some v =>
    obtain ⟨d, g, hd, hg, -, hplace, hsuits⟩ := h _ v hv
    simp only [Prod.mk.injEq] at hplace
    cases hm.field_eq hd hc hg hf hplace.1 hplace.2
    exact hsuits

theorem Suits.fits {f : Field} {v : Value} (h : Suits f v)
    (hf : f.type.kind = .reference ∨ ∀ text, f.constant ≠ some (.string text)) :
    v.fits f.type = true := by
  rcases h with h | ⟨⟨text, ht⟩, hk⟩
  · exact h
  · rcases hf with hf | hf
    · simp [Value.fits, hk, hf]
    · exact absurd ht (hf text)

end Machine

namespace Exec

variable {e : Engine} {t t' : Thread} {s : Scene} {f : Field} {ref : FieldRef}

theorem static_reads (i : Nat) (hs : s.machine.Sound) :
    (static f).Meets (.deeds i) t (fun r t' s' => t' = t ∧ s.machine.Course s'.machine ∧
      ∀ v, r = .ok v → ∃ m, s.machine.Course m ∧ v = m.static f) s := by
  refine meets_locked.2 (((Prog.isRestful_await _).meets hs).mono fun _ s1 h1 => ?_)
  refine meets_lift.2 fun s2 h2 => ⟨fun _ => .rest (.refl s2.machine), ?_⟩
  have hs1 := hs.course h1
  have hs2 := hs1.course (h2 hs1)
  refine ((Prog.isRestful_update Machine.rests_unlock).meets hs2).mono fun _ s3 h3 => ?_
  refine ⟨rfl, (h1.trans (h2 hs1)).trans h3, fun v hv => ?_⟩
  cases hv
  exact ⟨s2.machine, h1.trans (h2 hs1), rfl⟩

structure ReadStatic (ref : FieldRef) (t t' : Thread) (m : Machine) (v : Value) : Prop where
  frames : ∃ fr below f, t.frames = fr :: below ∧
    t'.frames = { fr with stack := v :: fr.stack } :: below ∧ m.Resolves ref f ∧
    f.isStatic = true ∧ Machine.Suits f v

theorem getStatic_reads (bound i : Nat) (hs : s.machine.Sound) (hst : s.machine.Stored) :
    (getStatic (.bounded bound) ref).Meets (.deeds i) t
      (fun r t' s' => r = .ok () → ∃ v, ReadStatic ref t t' s'.machine v) s := by
  have he := Engine.balanced_bounded bound
  have hl := Engine.lawful_bounded bound
  refine (Acts.resolveField ref).kin_bind hs (resolveField_kin ref) ?_ fun _ _ _ _ => nofun
  rintro ⟨c, f⟩ t1 s1 hk1 hc1 ⟨hc, hf, href⟩
  dsimp only
  split
  · exact nofun
  · rename_i hstatic
    have hs1 := hs.course hc1
    refine (hl.setUp _ c hc).kin_bind hs1 (he.setUp c t1 i s1) ?_ fun _ _ _ _ => nofun
    intro _ t2 s2 hk2 hc2 _
    have hs2 := hs1.course hc2
    refine meets_bind.2 ((static_reads i hs2).mono ?_)
    rintro r t3 s3 ⟨rfl, hc3, hv⟩
    cases r with
    | error trap => exact nofun
    | ok v =>
      obtain ⟨m, hm, rfl⟩ := hv v rfl
      rw [after_ok]
      cases hfr : t3.frames with
      | nil => exact (meets_inFrame_nil hfr).2 nofun
      | cons fr below =>
        refine (meets_inFrame_cons hfr).2 fun _ => ⟨_, fr, below, f, ?_, rfl, ?_, ?_, ?_⟩
        · exact (hk1.trans hk2).frames ▸ hfr
        · exact (Machine.Course.grows (hc2.trans hc3)).resolves href
        · simpa using hstatic
        · exact (hst.course (hc1.trans (hc2.trans hm))).static (hs2.course hm)
            ((Machine.Course.grows (hc2.trans hm)).has hc) hf

end Exec

theorem Engine.statics_typed (bound : Nat) (libraries : List Library) (natives : NativeTable)
    (settings : Settings) (stdout stderr : Pipe) (journal : Journal) (name : Nat → String)
    (demands : Nat → List Demand) {c : Pool (Except Trap Unit × Thread) × Scene}
    (hr : Pool.Run Machine.Rests ((bounded bound).sessions name demands,
      .start libraries natives settings stdout stderr journal) c) :
    (∀ n k f, c.2.machine.classes.get? n = some k → f ∈ k.fields →
      ((c.2.machine.static f).fits f.type = true ∨
        (∃ text, f.constant = some (.string text)) ∧ (c.2.machine.static f).kind = .reference) ∧
      (f.type.kind = .reference ∨ (∀ text, f.constant ≠ some (.string text)) →
        (c.2.machine.static f).fits f.type = true)) ∧
    ∀ i t ref, (Exec.getStatic (.bounded bound) ref).Meets (.deeds i) t
      (fun r t' s' => r = .ok () → ∃ v, Exec.ReadStatic ref t t' s'.machine v) c.2 := by
  have hstart := kept_sessions bound libraries natives settings stdout stderr journal name demands
  obtain ⟨hcourse, h⟩ := hstart.run hr
  have hst := (Machine.stored_start libraries natives settings stdout stderr journal).course hcourse
  refine ⟨fun n k f hk hf => ?_, fun i t ref => Exec.getStatic_reads bound i h.sound hst⟩
  have hsuits := hst.static h.sound (h.sound.has hk) hf
  exact ⟨hsuits, hsuits.fits⟩

theorem Engine.statics_typed_of_sample :
    ∃ c, Pool.Run Machine.Rests (samplePool, sampleScene) c ∧
      c.2.machine.classes.get? sampleName = some sampleClass ∧ constantField ∈ sampleClass.fields ∧
      c.2.machine.static constantField = .int 7 ∧
      (c.2.machine.static constantField).fits constantField.type = true ∧
      (Exec.getStatic (.bounded 12) constantField.ref).Meets (.deeds 1) (inMake 1 0 [])
        (fun r t' s' => r = .ok () →
          ∃ v, Exec.ReadStatic constantField.ref (inMake 1 0 []) t' s'.machine v) c.2 := by
  obtain ⟨_, c, hr, hr', -, -, hm⟩ := run_sample Machine.Rests
  have h := statics_typed 12 [sampleLibrary] .standard .standard .sound .sound (.ofVerbosity none)
    (fun _ => "main") (fun _ => sampleDemands) (hr.trans hr')
  have hk : c.2.machine.classes.get? sampleName = some sampleClass := by rw [hm]; rfl
  have hf : constantField ∈ sampleClass.fields := List.mem_cons_self
  have hv : c.2.machine.static constantField = .int 7 := by rw [hm]; rfl
  exact ⟨c, hr.trans hr', hk, hf, hv, (h.1 _ _ _ hk hf).2 (.inr nofun), h.2 1 _ _⟩

end BytecodeMachine
