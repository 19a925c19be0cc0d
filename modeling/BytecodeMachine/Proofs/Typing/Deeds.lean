import BytecodeMachine.Proofs.Identities.Tables
import BytecodeMachine.Proofs.Interleaving
import BytecodeMachine.Proofs.Typing.ArrayClasses
import BytecodeMachine.Proofs.Typing.FieldClasses
import BytecodeMachine.Proofs.Typing.Storage

namespace BytecodeMachine

def Body.shape : Body → Option ElementKind × Nat
  | .fields values => (none, values.size)
  | .array s => (some s.kind, s.length)

def Object.content (o : Object) : Class × Body := (o.klass, o.body)

theorem Object.shape_setField (o : Object) (k : Nat) (v : Value) :
    (o.setField k v).body.shape = o.body.shape := by
  unfold setField
  split
  · simp [Body.shape]
  · rfl

theorem Object.array_setField {o : Object} {k : Nat} {v : Value} {s : ArrayStorage}
    (h : (o.setField k v).body = .array s) : o.body = .array s := by
  unfold setField at h
  split at h
  · cases h
  · exact h

namespace Machine

def Has (m : Machine) (c : Class) : Prop := m.classes.get? c.name = some c

structure Holds (m : Machine) (c : Class) (s : ArrayStorage) : Prop where
  kind : ∃ t, c.componentType? = some t ∧ s.kind = .ofType t
  elements : ∀ o, s.Has o → ∃ k, c.component = some k ∧ m.fitsComponent k o = true

structure Sound (m : Machine) : Prop where
  libraries : ∃ rest, m.libraries = CoreLibrary.library :: rest
  closed : ClassTable.Closed m.libraries m.classes
  known : ∀ o object, m.heap.get? o = some object → m.Has object.klass
  arrays : ∀ o object s, m.heap.get? o = some object → object.body = .array s →
    m.Holds object.klass s

structure Rests (m m' : Machine) : Prop where
  libraries : m'.libraries = m.libraries
  classes : ClassTable.Loaded m.libraries m.classes m'.classes
  statics : m'.statics = m.statics
  heap : ∀ o, (m'.heap.get? o).map Object.content = (m.heap.get? o).map Object.content

structure Grows (m m' : Machine) : Prop where
  libraries : m'.libraries = m.libraries
  classes : ClassTable.Extends m.classes m'.classes
  heap : ∀ o object, m.heap.get? o = some object → ∃ object', m'.heap.get? o = some object' ∧
    object'.klass = object.klass ∧ object'.body.shape = object.body.shape

-- A static field takes what fits its type; only its first value may be a string whatever the type.
def Suits (f : Field) (v : Value) : Prop :=
  v.fits f.type = true ∨ (∃ text, f.constant = some (.string text)) ∧ v.kind = .reference

inductive Deed (m : Machine) : Machine → Prop
  | rest {m' : Machine} (h : m.Rests m') : Deed m m'
  | object {c : Class} (bytes : Nat) (hc : m.Has c) : Deed m (m.alloc (.instanceOf c) bytes).2
  | array {c : Class} {s : ArrayStorage} (bytes : Nat) (hc : m.Has c) (hs : m.Holds c s) :
      Deed m (m.alloc (.ofStorage c s) bytes).2
  | elements {o : ObjectId} {object : Object} {s : ArrayStorage}
      (ho : m.heap.get? o = some object) (hb : object.body.shape = (some s.kind, s.length))
      (hs : m.Holds object.klass s) :
      Deed m { m with heap := m.heap.modify o (·.setStorage s) }
  | slot {o : ObjectId} {object : Object} {c : Class} {f : Field} {k : Nat} {v : Value}
      (ho : m.heap.get? o = some object) (hc : m.Has c) (hf : f ∈ c.fields) (hk : f.slot = some k)
      (ha : object.klass.isAssignable c = true) (hv : v.fits f.type = true) :
      Deed m { m with heap := m.heap.modify o (·.setField k v) }
  | static {c : Class} {f : Field} {v : Value} (hc : m.Has c) (hf : f ∈ c.fields)
      (hs : f.isStatic = true) (hv : Suits f v) : Deed m (m.setStatic f v)

variable {m m1 m2 m3 m' : Machine}

theorem Grows.refl (m : Machine) : m.Grows m :=
  ⟨rfl, .refl _, fun _ object h => ⟨object, h, rfl, rfl⟩⟩

theorem Grows.trans (h : m1.Grows m2) (h' : m2.Grows m3) : m1.Grows m3 where
  libraries := h'.libraries.trans h.libraries
  classes := h.classes.trans h'.classes
  heap o object ho := by
    obtain ⟨object2, ho2, hk, hb⟩ := h.heap o object ho
    obtain ⟨object3, ho3, hk', hb'⟩ := h'.heap o object2 ho2
    exact ⟨object3, ho3, hk'.trans hk, hb'.trans hb⟩

theorem Grows.has (h : m.Grows m') {c : Class} (hc : m.Has c) : m'.Has c := h.classes _ _ hc

theorem fitsComponent_iff {k : Class} {o : ObjectId} : m.fitsComponent k o = true ↔
    ∃ object, m.heap.get? o = some object ∧ object.klass.isAssignable k = true := by
  unfold fitsComponent
  split <;> simp_all

theorem Grows.fits (h : m.Grows m') {k : Class} {o : ObjectId}
    (ho : m.fitsComponent k o = true) : m'.fitsComponent k o = true := by
  obtain ⟨object, hget, ha⟩ := fitsComponent_iff.1 ho
  obtain ⟨object', hget', hk, -⟩ := h.heap o object hget
  exact fitsComponent_iff.2 ⟨object', hget', hk ▸ ha⟩

theorem Grows.holds (h : m.Grows m') {c : Class} {s : ArrayStorage} (hs : m.Holds c s) :
    m'.Holds c s where
  kind := hs.kind
  elements o ho := by
    obtain ⟨k, hk, hf⟩ := hs.elements o ho
    exact ⟨k, hk, h.fits hf⟩

theorem Rests.refl (m : Machine) : m.Rests m := ⟨rfl, .refl, rfl, fun _ => rfl⟩

theorem Rests.trans (h : m1.Rests m2) (h' : m2.Rests m3) : m1.Rests m3 where
  libraries := h'.libraries.trans h.libraries
  classes := h.classes.trans (h.libraries ▸ h'.classes)
  statics := h'.statics.trans h.statics
  heap o := (h'.heap o).trans (h.heap o)

theorem Rests.back (h : m.Rests m') {o : ObjectId} {object' : Object}
    (ho : m'.heap.get? o = some object') :
    ∃ object, m.heap.get? o = some object ∧ object'.content = object.content := by
  have := h.heap o
  rw [ho] at this
  obtain ⟨object, hget, hc⟩ := Option.map_eq_some_iff.1 this.symm
  exact ⟨object, hget, hc.symm⟩

theorem Rests.grows (h : m.Rests m') : m.Grows m' where
  libraries := h.libraries
  classes := h.classes.grows
  heap o object ho := by
    have := h.heap o
    rw [ho] at this
    obtain ⟨object', hget, hc⟩ := Option.map_eq_some_iff.1 this
    simp only [Object.content, Prod.mk.injEq] at hc
    exact ⟨object', hget, hc.1, congrArg Body.shape hc.2⟩

theorem grows_modify {o : ObjectId} {f : Object → Object}
    (h : ∀ object, m.heap.get? o = some object →
      (f object).klass = object.klass ∧ (f object).body.shape = object.body.shape) :
    m.Grows { m with heap := m.heap.modify o f } where
  libraries := rfl
  classes := .refl _
  heap p object hp := by
    rw [Heap.get?_modify, hp]
    split
    · rename_i he
      cases he
      exact ⟨_, rfl, h object hp⟩
    · exact ⟨object, rfl, rfl, rfl⟩

theorem grows_alloc (object : Object) (bytes : Nat) : m.Grows (m.alloc object bytes).2 where
  libraries := rfl
  classes := .refl _
  heap _ x hp := ⟨x, Heap.get?_alloc_of_some object hp, rfl, rfl⟩

theorem Deed.grows (h : m.Deed m') : m.Grows m' := by
  cases h with
  | rest h => exact h.grows
  | object => exact grows_alloc _ _
  | array => exact grows_alloc _ _
  | elements ho hb hs =>
    refine grows_modify fun x hx => ⟨rfl, ?_⟩
    cases ho.symm.trans hx
    exact hb.symm
  | slot => exact grows_modify fun x _ => ⟨x.klass_setField _ _, x.shape_setField _ _⟩
  | static => exact ⟨rfl, .refl _, fun _ x h => ⟨x, h, rfl, rfl⟩⟩

namespace Sound

theorem has (h : m.Sound) {n : ClassName} {c : Class} (hc : m.classes.get? n = some c) :
    m.Has c := by
  rwa [Has, h.closed.name hc]

theorem kept (h : m.Sound) (hg : m.Grows m') {o : ObjectId} {object : Object}
    (ho : m.heap.get? o = some object) : m'.Has object.klass ∧
      ∀ s, object.body = .array s → m'.Holds object.klass s :=
  ⟨hg.has (h.known o object ho), fun s hs => hg.holds (h.arrays o object s ho hs)⟩

theorem of_heap (h : m.Sound) (hg : m.Grows m') (hc : m'.classes = m.classes)
    (hh : ∀ o object, m'.heap.get? o = some object →
      m'.Has object.klass ∧ ∀ s, object.body = .array s → m'.Holds object.klass s) :
    m'.Sound where
  libraries := hg.libraries ▸ h.libraries
  closed := by
    rw [hg.libraries, hc]
    exact h.closed
  known o object ho := (hh o object ho).1
  arrays o object s ho := (hh o object ho).2 s

theorem alloc (h : m.Sound) {object : Object} (bytes : Nat) (hc : m.Has object.klass)
    (hs : ∀ s, object.body = .array s → m.Holds object.klass s) :
    (m.alloc object bytes).2.Sound := by
  have hg : m.Grows (m.alloc object bytes).2 := grows_alloc object bytes
  refine h.of_heap hg rfl fun o x hx => ?_
  have hx' : (m.heap.alloc object).2.get? o = some x := hx
  rw [Heap.get?_alloc] at hx'
  split at hx'
  · cases hx'
    exact ⟨hg.has hc, fun s hb => hg.holds (hs s hb)⟩
  · exact h.kept hg hx'

theorem modify (h : m.Sound) {o : ObjectId} {f : Object → Object}
    (hf : ∀ object, m.heap.get? o = some object →
      (f object).klass = object.klass ∧ (f object).body.shape = object.body.shape ∧
        ∀ s, (f object).body = .array s → m.Holds object.klass s) :
    Sound { m with heap := m.heap.modify o f } := by
  have hg : m.Grows { m with heap := m.heap.modify o f } :=
    grows_modify fun x hx => ⟨(hf x hx).1, (hf x hx).2.1⟩
  refine h.of_heap hg rfl fun p x hx => ?_
  rw [Heap.get?_modify] at hx
  split at hx
  · rename_i he
    cases he
    obtain ⟨object, ho, rfl⟩ := Option.map_eq_some_iff.1 hx
    obtain ⟨hk, -, ha⟩ := hf object ho
    rw [hk]
    exact ⟨hg.has (h.known o object ho), fun s hs => hg.holds (ha s hs)⟩
  · exact h.kept hg hx

theorem rest (h : m.Sound) (hr : m.Rests m') : m'.Sound where
  libraries := hr.libraries ▸ h.libraries
  closed := by
    rw [hr.libraries]
    exact hr.classes.closed h.closed
  known o object ho := by
    obtain ⟨x, hx, hc⟩ := hr.back ho
    simp only [Object.content, Prod.mk.injEq] at hc
    exact hc.1 ▸ (h.kept hr.grows hx).1
  arrays o object s ho hs := by
    obtain ⟨x, hx, hc⟩ := hr.back ho
    simp only [Object.content, Prod.mk.injEq] at hc
    exact hc.1 ▸ (h.kept hr.grows hx).2 s (hc.2.symm.trans hs)

theorem deed (h : m.Sound) (hd : m.Deed m') : m'.Sound := by
  cases hd with
  | rest hr => exact h.rest hr
  | object bytes hc => exact h.alloc bytes hc nofun
  | array bytes hc hs =>
    refine h.alloc bytes hc fun s hb => ?_
    cases hb
    exact hs
  | elements ho hb hs =>
    refine h.modify fun x hx => ⟨rfl, ?_, fun s he => ?_⟩
    · cases ho.symm.trans hx
      exact hb.symm
    · cases ho.symm.trans hx
      cases he
      exact hs
  | @slot o _ _ _ k v =>
    refine h.modify fun x hx => ⟨x.klass_setField _ _, x.shape_setField _ _, fun s he => ?_⟩
    exact h.arrays o x s hx (Object.array_setField he)
  | static hc hf hs hv =>
    refine h.of_heap ⟨rfl, .refl _, fun _ x h => ⟨x, h, rfl, rfl⟩⟩ rfl fun o x hx => ?_
    exact ⟨h.known o x hx, fun s hb => ⟨(h.arrays o x s hx hb).kind, (h.arrays o x s hx hb).elements⟩⟩

end Sound

abbrev Course : Machine → Machine → Prop := Relation.ReflTransGen Deed

theorem Sound.course (h : m.Sound) (hc : m.Course m') : m'.Sound := by
  induction hc with
  | refl => exact h
  | tail _ hd ih => exact ih.deed hd

theorem Course.grows (h : m.Course m') : m.Grows m' := by
  induction h with
  | refl => exact .refl m
  | tail _ hd ih => exact ih.trans hd.grows

end Machine

def Contract.deeds (thread : Nat) : Contract where
  thread := thread
  rely s s' := s.machine.Sound → s.machine.Course s'.machine
  guarantee s s' := s.machine.Sound → s.machine.Deed s'.machine

theorem Contract.family_deeds : Contract.Family Contract.deeds where
  thread _ := rfl
  refl _ _ _ := .refl
  trans _ _ _ _ h h' hs := (h hs).trans (h' (hs.course (h hs)))
  compatible _ _ _ _ _ h hs := .single (h hs)

end BytecodeMachine
