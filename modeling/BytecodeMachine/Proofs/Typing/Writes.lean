import BytecodeMachine.Exec.Setup
import BytecodeMachine.Proofs.Typing.Acts

namespace BytecodeMachine

variable {α : Type}

theorem Heap.modify_congr {h : Heap} {o : ObjectId} {f g : Object → Object}
    (hfg : ∀ x, h.get? o = some x → f x = g x) : h.modify o f = h.modify o g := by
  unfold modify
  congr 1
  refine Array.ext_getElem? fun i => ?_
  rw [Array.getElem?_modify, Array.getElem?_modify]
  split
  · rename_i hi
    subst hi
    cases hx : h.objects[o.index]? with
    | none => rfl
    | some x => exact congrArg some (hfg x hx)
  · rfl

theorem Heap.modify_self {h : Heap} {o : ObjectId} {f : Object → Object}
    (hf : ∀ x, h.get? o = some x → f x = x) : h.modify o f = h := by
  have hid : h.modify o f = h.modify o id := modify_congr hf
  rw [hid, modify]
  congr 1
  exact Array.ext_getElem? fun i => by simp [Array.getElem?_modify]

theorem Object.setElement_of_array {x : Object} {s : ArrayStorage} (h : x.body = .array s)
    (i : Nat) (v : Value) : x.setElement i v = x.setStorage (s.put i v) := by
  obtain ⟨c, body, monitor⟩ := x
  cases h
  rfl

namespace Machine

variable {m m' : Machine} {o : ObjectId} {c k : Class} {x : Object} {v : Value}

def IsA (m : Machine) (o : ObjectId) (c : Class) : Prop :=
  ∃ x, m.heap.get? o = some x ∧ x.klass = c

structure Seen (m : Machine) (o : ObjectId) (x : Object) : Prop where
  shows : ∃ y, m.heap.get? o = some y ∧ y.klass = x.klass ∧ y.body.shape = x.body.shape
  known : m.Has x.klass
  holds : ∀ s, x.body = .array s → m.Holds x.klass s

def Takes (m : Machine) (o : ObjectId) (v : Value) : Prop :=
  ∃ x, m.heap.get? o = some x ∧ (x.body.shape.1 = some .reference → ∀ e, v = .object e →
    ∃ k, x.klass.component = some k ∧ m.fitsComponent k e = true)

theorem Grows.isA (h : m.Grows m') (ho : m.IsA o c) : m'.IsA o c := by
  obtain ⟨x, hx, rfl⟩ := ho
  obtain ⟨y, hy, hk, -⟩ := h.heap o x hx
  exact ⟨y, hy, hk⟩

theorem Grows.seen (h : m.Grows m') (ho : m.Seen o x) : m'.Seen o x where
  shows := by
    obtain ⟨y, hy, hk, hb⟩ := ho.shows
    obtain ⟨z, hz, hk', hb'⟩ := h.heap o y hy
    exact ⟨z, hz, hk'.trans hk, hb'.trans hb⟩
  known := h.has ho.known
  holds s hs := h.holds (ho.holds s hs)

theorem Grows.takes (h : m.Grows m') (ho : m.Takes o v) : m'.Takes o v := by
  obtain ⟨x, hx, ht⟩ := ho
  obtain ⟨y, hy, hk, hb⟩ := h.heap o x hx
  refine ⟨y, hy, fun hr e he => ?_⟩
  obtain ⟨k, hc, hf⟩ := ht (hb ▸ hr) e he
  exact ⟨k, hk ▸ hc, h.fits hf⟩

theorem Sound.seen (h : m.Sound) (ho : m.heap.get? o = some x) : m.Seen o x :=
  ⟨⟨x, ho, rfl, rfl⟩, h.known o x ho, fun s => h.arrays o x s ho⟩

theorem Sound.component_of_reference (h : m.Sound) {s : ArrayStorage} (hc : m.Has c)
    (hs : m.Holds c s) (hk : s.kind = .reference) : ∃ k, c.component = some k := by
  obtain ⟨t, ht, hkt⟩ := hs.kind
  rcases h.closed.component hc ht with ⟨hr, -⟩ | ⟨n, k, -, hk, -⟩
  · cases t with
    | base b =>
      rw [hk] at hkt
      cases b <;> cases hkt
    | _ => cases hr
  · exact ⟨k, hk⟩

theorem Seen.isA (h : m.Seen o x) : m.IsA o x.klass :=
  h.shows.imp fun _ hy => ⟨hy.1, hy.2.1⟩

theorem IsA.fits (h : m.IsA o c) (hk : c.isAssignable k = true) : m.fitsComponent k o = true := by
  obtain ⟨x, hx, rfl⟩ := h
  exact fitsComponent_iff.2 ⟨x, hx, hk⟩

theorem IsA.takes {e : ObjectId} (h : m.IsA o c) (hc : c.component = some k)
    (he : m.fitsComponent k e = true) : m.Takes o (.object e) := by
  obtain ⟨x, hx, rfl⟩ := h
  refine ⟨x, hx, fun _ e' hv => ⟨k, hc, ?_⟩⟩
  cases hv
  exact he

theorem holds_new {t : FieldType} (h : c.componentType? = some t) (length : Nat) :
    m.Holds c (.new t length) :=
  ⟨⟨t, h, rfl⟩, fun o ho => absurd ho (ArrayStorage.not_has_new t length o)⟩

theorem Holds.put {s : ArrayStorage} {i : Nat} (h : m.Holds c s)
    (hv : s.kind = .reference → ∀ e, v = .object e →
      ∃ k, c.component = some k ∧ m.fitsComponent k e = true) : m.Holds c (s.put i v) where
  kind := by
    rw [ArrayStorage.kind_put]
    exact h.kind
  elements e he := by
    rcases ArrayStorage.has_put he with hs | hs
    · exact h.elements e hs
    · refine hv ?_ e hs
      by_contra hk
      exact ArrayStorage.not_has_of_kind (by rwa [ArrayStorage.kind_put]) e he

theorem Takes.deed (ho : m.Takes o v) (hm : m.Sound) (i : Nat) :
    m.Deed { m with heap := m.heap.modify o (·.setElement i v) } := by
  obtain ⟨x, hx, ht⟩ := ho
  cases hb : x.body with
  | fields values =>
    have hself : m.heap.modify o (·.setElement i v) = m.heap := by
      refine Heap.modify_self fun y hy => ?_
      cases hx.symm.trans hy
      obtain ⟨c, body, monitor⟩ := x
      cases hb
      rfl
    rw [hself]
    exact .rest (.refl m)
  | array s =>
    have hput : m.heap.modify o (·.setElement i v) = m.heap.modify o (·.setStorage (s.put i v)) := by
      refine Heap.modify_congr fun y hy => ?_
      cases hx.symm.trans hy
      exact Object.setElement_of_array hb i v
    rw [hput]
    refine .elements hx ?_ ((hm.arrays o x s hx hb).put fun hk => ht ?_)
    · rw [hb, ArrayStorage.kind_put, ArrayStorage.length_put]
      rfl
    · rw [hb]
      exact congrArg some hk

theorem holds_copied {same : Bool} {dest : Object} {source target r : ArrayStorage}
    {start place count : Nat} (h : m.copied same dest source target start place count = .ok r)
    (ht : m.Holds dest.klass target) (hs : start + count ≤ source.length)
    (hd : place + count ≤ target.length) (hsame : same = true → source.length = target.length) :
    r.kind = target.kind ∧ r.length = target.length ∧ m.Holds dest.klass r := by
  unfold copied at h
  cases same with
  | true =>
    cases h
    have hlen := ArrayStorage.length_copyWithin (s := target) (hsame rfl ▸ hs) hd
    exact ⟨rfl, hlen, ht.kind, fun o ho => ht.elements o (ArrayStorage.has_copyWithin ho)⟩
  | false =>
    simp only [Bool.false_eq_true, if_false] at h
    split at h
    · cases h
    · rename_i hc
      have hk := ArrayStorage.kind_copyFrom h
      refine ⟨hk, ArrayStorage.length_copyFrom h hs hd, hk ▸ ht.kind, fun o ho => ?_⟩
      rcases ArrayStorage.has_copyFrom h ho with ho | ⟨refs, hr, ho⟩
      · exact ht.elements o ho
      · rw [hr] at hc
        obtain ⟨k, hk, hf⟩ := checkCopied_eq_ok_iff.1 hc
        exact ⟨k, hk, hf o ho⟩

theorem Seen.deed_copyRange {same : Bool} {s d : ArrayStorage} {start place count : Nat}
    (ho : m.Seen o x) (hm : m.Sound) (hd : x.body = .array d) (hs : start + count ≤ s.length)
    (ht : place + count ≤ d.length) (hsame : same = true → s.length = d.length) :
    m.Deed (m.copyRange same s o start place count).2 := by
  obtain ⟨y, hy, -, hshape⟩ := ho.shows
  rw [hd] at hshape
  unfold copyRange
  rw [hy]
  cases hb : y.body with
  | fields values =>
    rw [hb] at hshape
    cases hshape
  | array target =>
    rw [hb] at hshape
    have hlen : target.length = d.length := congrArg Prod.snd hshape
    simp only [Object.storage, hb]
    split
    · exact .rest (.refl m)
    · rename_i r hr
      obtain ⟨hk, hl, hr⟩ := holds_copied hr (hm.arrays o y target hy hb) hs (hlen ▸ ht)
        (hlen ▸ hsame)
      exact .elements hy (by rw [hb, hk, hl]; rfl) hr

end Machine

namespace Exec

namespace Acts

variable {m : Machine} {o : ObjectId} {c k : Class} {v : Value} {Q : α → Machine → Prop}

theorem guard {b : Prop} [Decidable b] {x : Exec PUnit} {next : PUnit → Exec α}
    (hx : ∀ P, Acts m x P) (hn : ¬b → Acts m (next ()) Q) :
    Acts m (if b then x >>= next else next ()) Q := by
  split
  · exact (hx fun _ _ => False).bind fun _ _ _ h => h.elim
  · exact hn ‹_›

theorem object (o : ObjectId) : Acts m (Exec.object o) fun x m' => m'.Seen o x := by
  have hread : Acts m (Exec.read (·.heap.get? o)) fun found m' =>
      ∀ x, found = some x → m'.Seen o x :=
    act fun m' _ hs => ⟨.rest (.refl m'), fun x hx => hs.seen hx⟩
  refine hread.bind fun found m1 _ h => ?_
  cases found with
  | some x => exact pure fun m2 hg => hg.seen (h x rfl)
  | none => exact fail _

theorem classOf (o : ObjectId) :
    Acts m (Exec.classOf o) fun c m' => m'.IsA o c ∧ m'.Has c := by
  refine (object o).bind fun x m1 _ h => pure fun m2 hg => ?_
  exact ⟨hg.isA h.isA, hg.has h.known⟩

theorem newObject (hc : m.Has c) : Acts m (Exec.newObject c) fun o m' => m'.IsA o c := by
  refine act fun m1 hg _ => ⟨.object _ (hg.has hc), .instanceOf c, ?_, rfl⟩
  exact (Heap.get?_alloc m1.heap _ _).trans (if_pos rfl)

theorem allocArray {s : ArrayStorage} (bytes : Nat) (hc : m.Has c) (hs : m.Holds c s) :
    Acts m (Exec.act (·.alloc (.ofStorage c s) bytes)) fun o m' => m'.IsA o c := by
  refine act fun m1 hg _ => ⟨.array _ (hg.has hc) (hg.holds hs), .ofStorage c s, ?_, rfl⟩
  exact (Heap.get?_alloc m1.heap _ _).trans (if_pos rfl)

theorem allocNew (hc : m.Has c) (length : Nat) : Acts m (match c.componentType? with
    | none => Exec.fail (.notArrayClass c.name)
    | some t => Exec.act (·.alloc (.ofStorage c (.new t length)) (arrayBytes c length)))
    fun o m' => m'.IsA o c ∧ c.componentType?.isSome := by
  split
  · exact fail _
  · rename_i t ht
    refine (allocArray _ hc (Machine.holds_new ht length)).mono fun o m1 _ _ ho => ?_
    exact ⟨ho, by rw [ht]; rfl⟩

theorem newArray (hc : m.Has c) (length : Nat) :
    Acts m (Exec.newArray c length) fun o m' => m'.IsA o c ∧ c.componentType?.isSome := by
  refine (read _).bind fun most m1 hg1 _ => ?_
  dsimp only
  split
  · exact (Lawful.note _ _).bind fun _ m2 hg2 _ =>
      (raise (P := fun _ _ => False) _).bind fun _ _ _ h => h.elim
  · exact allocNew (hg1.has hc) length

theorem arrayOf {t : FieldType} {s : ArrayStorage} (hk : s.kind = .ofType t)
    (hr : ElementKind.ofType t ≠ .reference) : Acts m (Exec.arrayOf t s) fun _ _ => True := by
  refine (arrayClass t).bind fun c m1 _ hc => ?_
  refine Lawful.mono (allocArray _ hc.1 ⟨⟨t, hc.2, hk⟩, fun o ho => ?_⟩)
  exact absurd ho (ArrayStorage.not_has_of_kind (hk ▸ hr) o)

theorem storeElement (h : m.Takes o v) (index : Int32) :
    Acts m (Exec.storeElement o index v) fun _ _ => True := by
  refine (Lawful.storage o m).bind fun s m1 hg1 _ => ?_
  refine (Lawful.ofTrap _ m1).bind fun i m2 hg2 _ => update fun m3 hg3 hs => ⟨?_, trivial⟩
  exact (((hg1.trans hg2).trans hg3).takes h).deed hs i

theorem setField {d : Class} {f : Field} {slot : Nat} (ho : m.IsA o d) (hc : m.Has c)
    (hf : f ∈ c.fields) (hk : f.slot = some slot) (ha : d.isAssignable c = true)
    (hv : v.fits f.type = true) : Acts m (Exec.setField o slot v) fun _ _ => True := by
  refine (Lawful.field o slot m).bind fun _ m1 hg1 _ => update fun m2 hg2 _ => ⟨?_, trivial⟩
  obtain ⟨x, hx, rfl⟩ := (hg1.trans hg2).isA ho
  exact .slot hx ((hg1.trans hg2).has hc) hf hk ha hv

theorem setStatic {f : Field} (hc : m.Has c) (hf : f ∈ c.fields) (hs : f.isStatic = true)
    (hv : Machine.Suits f v) : Acts m (Exec.setStatic f v) fun _ _ => True :=
  (update fun _ hg _ => ⟨.static (hg.has hc) hf hs hv, trivial⟩).locked fun _ _ _ _ _ => trivial

end Acts

end Exec

end BytecodeMachine
