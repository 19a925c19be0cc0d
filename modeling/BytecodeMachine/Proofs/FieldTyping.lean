import BytecodeMachine.Proofs.Typing.Hierarchy
import BytecodeMachine.Proofs.Typing.Operands
import BytecodeMachine.Proofs.Typing.Runs

namespace BytecodeMachine

variable {α : Type}

namespace Machine

variable {m m' : Machine} {c d : Class} {f : Field} {k : Nat} {v : Value}

theorem Sound.slot_type (h : m.Sound) (hc : m.Has c) (hd : m.Has d) (hf : f ∈ d.fields)
    (hk : f.slot = some k) (ha : c.isAssignable d = true) (hi : c.NoInterfaceSlots) :
    c.layout[k]? = some f.type := by
  have hn : f.isStatic = false := by
    by_contra hs
    cases hk.symm.trans ((h.closed.placed hd).static f hf (by simpa using hs))
  obtain ⟨rest, hl⟩ := h.libraries
  cases hs : c.isArray with
  | true =>
    have := CoreLibrary.fields_above_array (hl ▸ h.closed) hd hs ha
    rw [this] at hf
    cases hf
  | false =>
    rcases h.closed.of_isAssignable hc hd hs ha with hchain | ⟨hint, horder⟩
    · obtain ⟨j, hj, -, hget⟩ := h.closed.slot_of_chain hc hchain hf hn
      cases hk.symm.trans hj
      exact hget
    · cases hn.symm.trans (hi d horder hint f hf)

def FitsSlots (c : Class) (values : Array Value) : Prop :=
  ∀ (k : Nat) (v : Value), values[k]? = some v → ∃ t, c.layout[k]? = some t ∧ v.fits t = true

theorem fitsSlots_default (c : Class) : FitsSlots c (c.layout.map Value.default).toArray := by
  intro k v hv
  simp only [List.getElem?_toArray, List.getElem?_map, Option.map_eq_some_iff] at hv
  obtain ⟨t, ht, rfl⟩ := hv
  exact ⟨t, ht, Value.fits_default t⟩

theorem FitsSlots.set {values : Array Value} {t : FieldType} (h : FitsSlots c values)
    (ht : c.layout[k]? = some t) (hv : v.fits t = true) :
    FitsSlots c (values.setIfInBounds k v) := by
  intro j w hw
  rw [Array.getElem?_setIfInBounds] at hw
  split at hw
  · rename_i hj
    subst hj
    split at hw
    · cases hw
      exact ⟨t, ht, hv⟩
    · cases hw
  · exact h j w hw

structure Slotted (m : Machine) : Prop where
  size : ∀ o x values, m.heap.get? o = some x → x.body = .fields values →
    values.size = x.klass.layout.length
  fits : ∀ o x values, m.heap.get? o = some x → x.body = .fields values →
    x.klass.NoInterfaceSlots → FitsSlots x.klass values

theorem Slotted.of_heap (h : m.Slotted) (hh : ∀ o x values, m'.heap.get? o = some x →
    x.body = .fields values → (∃ y, m.heap.get? o = some y ∧ y.klass = x.klass ∧
      y.body = .fields values) ∨
      values.size = x.klass.layout.length ∧ (x.klass.NoInterfaceSlots → FitsSlots x.klass values)) :
    m'.Slotted where
  size o x values ho hb := by
    rcases hh o x values ho hb with ⟨y, hy, hk, hyb⟩ | hnew
    · exact hk ▸ h.size o y values hy hyb
    · exact hnew.1
  fits o x values ho hb hi := by
    rcases hh o x values ho hb with ⟨y, hy, hk, hyb⟩ | hnew
    · rw [← hk] at hi ⊢
      exact h.fits o y values hy hyb hi
    · exact hnew.2 hi

theorem Slotted.deed (h : m.Slotted) (hm : m.Sound) (hd : m.Deed m') : m'.Slotted := by
  refine h.of_heap fun o x values ho hb => ?_
  cases hd with
  | rest hr =>
    obtain ⟨y, hy, hc⟩ := hr.back ho
    simp only [Object.content, Prod.mk.injEq] at hc
    exact .inl ⟨y, hy, hc.1.symm, hc.2.symm.trans hb⟩
  | object bytes hc =>
    rw [Machine.alloc, Heap.get?_alloc] at ho
    split at ho
    · cases ho
      cases hb
      exact .inr ⟨by simp [Object.instanceOf], fun _ => fitsSlots_default _⟩
    · exact .inl ⟨x, ho, rfl, hb⟩
  | array bytes hc hs =>
    rw [Machine.alloc, Heap.get?_alloc] at ho
    split at ho
    · cases ho
      cases hb
    · exact .inl ⟨x, ho, rfl, hb⟩
  | elements hp _ hs =>
    rw [Heap.get?_modify] at ho
    split at ho
    · obtain ⟨y, hy, rfl⟩ := Option.map_eq_some_iff.1 ho
      cases hb
    · exact .inl ⟨x, ho, rfl, hb⟩
  | @slot p y d f k v hp hc hf hk ha hv =>
    rw [Heap.get?_modify] at ho
    split at ho
    · rename_i he
      subst he
      obtain ⟨z, hz, rfl⟩ := Option.map_eq_some_iff.1 ho
      cases hp.symm.trans hz
      obtain ⟨c, body, monitor⟩ := y
      cases body with
      | array s => cases hb
      | fields old =>
        cases hb
        refine .inr ⟨?_, fun hi => ?_⟩
        · simpa [Object.setField] using h.size p _ old hp rfl
        · have ht := hm.slot_type (hm.known p _ hp) hc hf hk ha hi
          exact (h.fits p _ old hp rfl hi).set ht hv
    · exact .inl ⟨x, ho, rfl, hb⟩
  | static => exact .inl ⟨x, ho, rfl, hb⟩

theorem Slotted.fits_slot (h : m.Slotted) (hm : m.Sound) {o : ObjectId} {x : Object}
    {values : Array Value} (ho : m.heap.get? o = some x) (hb : x.body = .fields values)
    (hc : m.Has c) (hf : f ∈ c.fields) (hn : f.isStatic = false)
    (ha : x.klass.isAssignable c = true) (hv : values[f.slot.getD 0]? = some v)
    (hi : x.klass.NoInterfaceSlots) : v.fits f.type = true := by
  obtain ⟨k, hk, -⟩ := (hm.closed.placed hc).place f hf hn
  rw [hk, Option.getD_some] at hv
  have ht := hm.slot_type (hm.known o x ho) hc hf hk ha hi
  obtain ⟨t, ht', hfits⟩ := h.fits o x values ho hb hi k v hv
  cases ht.symm.trans ht'
  exact hfits

theorem slotted_start (libraries : List Library) (natives : NativeTable) (settings : Settings)
    (stdout stderr : Pipe) (journal : Journal) :
    (Scene.start libraries natives settings stdout stderr journal).machine.Slotted where
  size o x values h := by cases h
  fits o x values h := by cases h

theorem Slotted.course (h : m.Slotted) (hm : m.Sound) (hc : m.Course m') : m'.Slotted := by
  induction hc with
  | refl => exact h
  | tail hr hd ih => exact ih.deed (hm.course hr) hd

end Machine

def Contract.alone (thread : Nat) : Contract := ⟨thread, fun s s' => s' = s, fun _ _ => True⟩

namespace Exec

variable {t t' : Thread} {m : Machine} {s : Scene} {ref : FieldRef}

structure ReadField (ref : FieldRef) (t t' : Thread) (m : Machine) (v : Value) : Prop where
  frames : ∃ fr below o rest x f, t.frames = fr :: below ∧ fr.stack = .object o :: rest ∧
    t'.frames = { fr with stack := v :: rest } :: below ∧ m.heap.get? o = some x ∧
    m.Resolves ref f ∧ (x.klass.NoInterfaceSlots → v.fits f.type = true)

theorem meets_read_bind {β : Type} {i : Nat} {f : Machine → α} {g : α → Exec β} {Q : Post β}
    (hs : s.machine.Sound)
    (h : ∀ s', s.machine.Course s'.machine → (g (f s'.machine)).Meets (.deeds i) t Q s') :
    (read f >>= g).Meets (.deeds i) t Q s :=
  meets_bind.2 (meets_lift.2 fun s' hr => ⟨fun _ => .rest (.refl s'.machine), h s' (hr hs)⟩)

theorem field_reads (i : Nat) (o : ObjectId) (k : Nat) (hs : s.machine.Sound) :
    (field o k).Meets (.deeds i) t (fun r t' s' => t' = t ∧ s.machine.Course s'.machine ∧
      ∀ v, r = .ok v → ∃ x values, s'.machine.heap.get? o = some x ∧ x.body = .fields values ∧
        values[k]? = some v) s := by
  rw [field, object, bind_assoc]
  refine meets_read_bind hs fun s' hc => ?_
  cases ho : s'.machine.heap.get? o with
  | none => exact ⟨rfl, hc, nofun⟩
  | some x =>
    change (ofExcept (x.field k)).Meets _ _ _ _
    cases hx : x.field k with
    | error fault => exact ⟨rfl, hc, nofun⟩
    | ok v =>
      refine ⟨rfl, hc, fun w hw => ?_⟩
      cases hw
      unfold Object.field at hx
      repeat' split at hx
      all_goals cases hx
      exact ⟨x, _, ho, by assumption, by assumption⟩

theorem getField_reads (i : Nat) (hs : s.machine.Sound) (hsl : s.machine.Slotted) :
    (getField ref).Meets (.deeds i) t
      (fun r t' s' => r = .ok () → ∃ v, ReadField ref t t' s'.machine v) s := by
  refine (Acts.resolveField ref).kin_bind hs (resolveField_kin ref) ?_ fun _ _ _ _ => nofun
  rintro ⟨c, f⟩ t1 s1 hk1 hc1 ⟨hc, hf, href⟩
  dsimp only
  split
  · exact nofun
  · refine meets_inFrame_bind (fun fr below o fr' hfr hpop => ?_) fun _ _ _ => nofun
    obtain ⟨rest, hstack, rfl⟩ := FrameM.stack_of_popObject hpop
    refine (Acts.classOf o).kin_bind (hs.course hc1) (classOf_kin o) ?_ fun _ _ _ _ => nofun
    intro found t2 s2 hk2 hc2 ho
    split
    · exact nofun
    · rename_i hstatic ha
      refine meets_bind.2 ((field_reads i o _ ((hs.course hc1).course hc2)).mono ?_)
      rintro r t3 s3 ⟨rfl, hc3, hv⟩
      cases r with
      | error trap => exact nofun
      | ok v =>
        obtain ⟨x, values, hx, hbody, hget⟩ := hv v rfl
        have hg := Machine.Course.grows (hc2.trans hc3)
        have hsound := ((hs.course hc1).course hc2).course hc3
        rw [after_ok]
        refine (meets_inFrame_cons hk2.frames).2 fun _ => ⟨v, fr, below, o, rest, x, f, ?_⟩
        refine ⟨hk1.frames ▸ hfr, hstack, rfl, hx, hg.resolves href, ?_⟩
        obtain ⟨y, hy, hyk⟩ := hc3.grows.isA ho.1
        cases hx.symm.trans hy
        exact (hsl.course hs (hc1.trans (hc2.trans hc3))).fits_slot hsound hx hbody (hg.has hc) hf
          (by simpa using hstatic) (by rw [hyk]; simpa using ha) hget

structure WroteField (ref : FieldRef) (t t' : Thread) (m m' : Machine) : Prop where
  frames : ∃ fr below v o rest x values f k, t.frames = fr :: below ∧
    fr.stack = v :: .object o :: rest ∧ t'.frames = { fr with stack := rest } :: below ∧
    m'.Resolves ref f ∧ f.slot = some k ∧ v.fits f.type = true ∧
    m.heap.get? o = some x ∧ x.body = .fields values ∧ k < values.size ∧
    m'.heap.get? o = some { x with body := .fields (values.setIfInBounds k v) } ∧
    ∀ p, p ≠ o → m'.heap.get? p = m.heap.get? p
  statics : m'.statics = m.statics

theorem heap_resolve (res : List Library → Resolving α) (m : Machine) :
    (m.resolve res).2.heap = m.heap ∧ (m.resolve res).2.statics = m.statics := by
  have step : ∀ (l : ClassTable) (m1 : Machine), m1.heap = m.heap ∧ m1.statics = m.statics →
      (l.foldl (fun m e => m.note (.loaded e.1)) m1).heap = m.heap ∧
        (l.foldl (fun m e => m.note (.loaded e.1)) m1).statics = m.statics := by
    intro l
    induction l with
    | nil => exact fun _ h => h
    | cons e l ih => exact fun m1 h => ih (m1.note (.loaded e.1)) h
  exact step _ _ ⟨rfl, rfl⟩

theorem resolveField_alone (i : Nat) (hs : s.machine.Sound) :
    (resolveField ref).Meets (.alone i) t (fun r t' s' => t' = t ∧ s'.machine.Sound ∧
      s'.machine.heap = s.machine.heap ∧ s'.machine.statics = s.machine.statics ∧
      ∀ a, r = .ok a → s'.machine.Has a.1 ∧ a.2 ∈ a.1.fields ∧ s'.machine.Resolves ref a.2) s := by
  have hkeeps := Resolving.keeps_resolveField ref t.context?
  refine meets_bind.2 ?_
  rw [meets_get, after_ok]
  refine meets_resolve.2 ?_
  rintro s' rfl
  have hs' := hs.rest (Machine.rests_resolve hkeeps s'.machine)
  obtain ⟨hheap, hstatics⟩ :=
    heap_resolve (fun libraries => .resolveField libraries ref t.context?) s'.machine
  refine ⟨trivial, rfl, hs', hheap, hstatics, fun a ha => ?_⟩
  have hok : (s'.machine.resolve fun libraries => .resolveField libraries ref t.context?).1 = .ok a := by
    split at ha
    · rename_i b hb
      cases ha
      exact hb
    · cases ha
  obtain ⟨ho, href⟩ := Machine.of_resolve hkeeps hok
  obtain ⟨htype, d, hd, hl⟩ := href
  obtain ⟨k, hk, hmem⟩ := hs'.closed.owner hd hl
  cases ho.symm.trans hk
  exact ⟨hs'.has ho, hmem, htype, d, hd, hl⟩

theorem meets_read_bind_alone {β : Type} {f : Machine → α} {g : α → Exec β} {i : Nat} {Q : Post β}
    (h : (g (f s.machine)).Meets (.alone i) t Q s) : (read f >>= g).Meets (.alone i) t Q s := by
  refine meets_bind.2 (meets_lift.2 ?_)
  rintro s' rfl
  exact ⟨trivial, h⟩

theorem object_bind_alone {β : Type} {i : Nat} {o : ObjectId} {g : Object → Exec β} {Q : Post β}
    (h : ∀ x, s.machine.heap.get? o = some x → (g x).Meets (.alone i) t Q s)
    (trapped : ∀ trap, Q (.error trap) t s) : (object o >>= g).Meets (.alone i) t Q s := by
  rw [object, bind_assoc]
  refine meets_read_bind_alone ?_
  cases ho : s.machine.heap.get? o with
  | none => exact trapped _
  | some x => exact h x ho

theorem setField_alone {i k : Nat} {o : ObjectId} {v : Value} (Q : Post Unit)
    (h : ∀ x values, s.machine.heap.get? o = some x → x.body = .fields values → k < values.size →
      Q (.ok ()) t (s.become { s.machine with heap := s.machine.heap.modify o (·.setField k v) }))
    (trapped : ∀ trap, Q (.error trap) t s) : (setField o k v).Meets (.alone i) t Q s := by
  rw [setField, field, bind_assoc]
  refine object_bind_alone (fun x hx => ?_) trapped
  cases hf : x.field k with
  | error fault => exact trapped _
  | ok w =>
    unfold Object.field at hf
    repeat' split at hf
    all_goals cases hf
    rename_i values hb w hw
    change (update _).Meets _ _ _ _
    refine meets_lift.2 ?_
    rintro s' rfl
    exact ⟨trivial, h x values hx hb (Array.getElem?_eq_some_iff.1 hw).1⟩

theorem putField_writes (i : Nat) (hs : s.machine.Sound) :
    (putField ref).Meets (.alone i) t
      (fun r t' s' => r = .ok () → WroteField ref t t' s.machine s'.machine) s := by
  refine meets_bind.2 ((resolveField_alone i hs).mono ?_)
  rintro r t1 s1 ⟨rfl, hs1, hheap, hstatics, hr⟩
  cases r with
  | error trap => exact nofun
  | ok a =>
    obtain ⟨c, f⟩ := a
    obtain ⟨hc, hf, href⟩ := hr _ rfl
    rw [after_ok]
    dsimp only
    split
    · exact nofun
    · rename_i hn
      obtain ⟨k, hk, -⟩ := (hs1.closed.placed hc).place f hf (by simpa using hn)
      refine meets_checkFinalWrite_bind (fun _ => ?_) fun _ => nofun
      refine meets_inFrame_bind (fun fr below v fr1 hfr hpop => ?_) fun _ _ _ => nofun
      obtain ⟨rest1, hstack, rfl⟩ := FrameM.stack_of_pop hpop
      refine meets_inFrame_bind (fun fr2 below2 o fr3 hfr2 hpop2 => ?_) fun _ _ _ => nofun
      cases hfr2
      obtain ⟨rest, hstack2, rfl⟩ := FrameM.stack_of_popObject hpop2
      cases hstack2
      rw [classOf, bind_assoc]
      refine object_bind_alone (fun x hx => ?_) fun _ => nofun
      change Meets _ (if _ then _ else _) _ _ _
      split
      · exact nofun
      · unfold checkStored
        split
        · rename_i hv
          change (setField o _ v).Meets _ _ _ _
          rw [hk, Option.getD_some]
          refine setField_alone _ (fun y values hy hb hlt _ => ?_) fun _ => nofun
          refine ⟨⟨fr, below, v, o, rest, y, values, f, k, hfr, hstack, rfl, href, hk, hv,
            hheap ▸ hy, hb, hlt, ?_, fun p hp => ?_⟩, hstatics⟩
          · refine (Heap.get?_modify _ _ _ _).trans ?_
            rw [if_pos rfl, hy]
            obtain ⟨c, body, monitor⟩ := y
            cases hb
            rfl
          · refine (Heap.get?_modify _ _ _ _).trans ?_
            rw [if_neg (Ne.symm hp), hheap]
        · exact nofun

end Exec

theorem Engine.slots_typed (bound : Nat) (libraries : List Library) (natives : NativeTable)
    (settings : Settings) (stdout stderr : Pipe) (journal : Journal) (name : Nat → String)
    (demands : Nat → List Demand) {c : Pool (Except Trap Unit × Thread) × Scene}
    (hr : Pool.Run Machine.Rests ((bounded bound).sessions name demands,
      .start libraries natives settings stdout stderr journal) c) :
    (∀ o x values, c.2.machine.heap.get? o = some x → x.body = .fields values →
      values.size = x.klass.layout.length ∧ (x.klass.NoInterfaceSlots →
        ∀ (k : Nat) (v : Value), values[k]? = some v →
          ∃ t, x.klass.layout[k]? = some t ∧ v.fits t = true)) ∧
    (∀ i t ref, (Exec.getField ref).Meets (.deeds i) t
      (fun r t' s' => r = .ok () → ∃ v, Exec.ReadField ref t t' s'.machine v) c.2) ∧
    (∀ i t ref, (Exec.putField ref).Meets (.alone i) t
      (fun r t' s' => r = .ok () → Exec.WroteField ref t t' c.2.machine s'.machine) c.2) ∧
    ∀ k d e f g, c.2.machine.classes.get? k.name = some k → d ∈ k.chain → e ∈ k.chain →
      f ∈ d.fields → g ∈ e.fields → f.isStatic = false → g.isStatic = false →
      f.slot = g.slot → f = g := by
  have hstart := kept_sessions bound libraries natives settings stdout stderr journal name demands
  obtain ⟨hcourse, h⟩ := hstart.run hr
  have hsl := (Machine.slotted_start libraries natives settings stdout stderr journal).course
    hstart.sound hcourse
  refine ⟨fun o x values ho hb => ⟨hsl.size o x values ho hb, hsl.fits o x values ho hb⟩, ?_, ?_, ?_⟩
  · exact fun i t ref => Exec.getField_reads i h.sound hsl
  · exact fun i t ref => Exec.putField_writes i h.sound
  · exact fun k d e f g hk hd he hf hg => h.sound.closed.slots_apart k hk hd he hf hg

theorem Engine.slots_typed_of_sample :
    ∃ c x, Pool.Run Machine.Rests (samplePool, sampleScene) c ∧
      c.2.machine.heap.get? ⟨0⟩ = some x ∧ x.body = .fields #[.long 6] ∧
      x.klass.layout.length = 1 ∧ x.klass.NoInterfaceSlots ∧
      (∃ t, x.klass.layout[0]? = some t ∧ (Value.long 6).fits t = true) ∧
      (Exec.getField wordRef).Meets (.deeds 1) (inMake 1 0 [.object ⟨0⟩])
        (fun r t' s' => r = .ok () →
          ∃ v, Exec.ReadField wordRef (inMake 1 0 [.object ⟨0⟩]) t' s'.machine v) c.2 ∧
      (Exec.putField wordRef).Meets (.alone 1) (inMake 1 0 [.long 8, .object ⟨0⟩])
        (fun r t' s' => r = .ok () → Exec.WroteField wordRef (inMake 1 0 [.long 8, .object ⟨0⟩]) t'
          c.2.machine s'.machine) c.2 := by
  obtain ⟨_, c, hr, hr', -, -, hm⟩ := run_sample Machine.Rests
  obtain ⟨hslots, hget, hput, -⟩ := slots_typed 12 [sampleLibrary] .standard .standard .sound .sound
    (.ofVerbosity none) (fun _ => "main") (fun _ => sampleDemands) (hr.trans hr')
  have ho : c.2.machine.heap.get? ⟨0⟩ = some (wordObject 6) := by rw [hm]; rfl
  have hi : sampleClass.NoInterfaceSlots := by
    intro d hd hinterface
    rw [show sampleClass.fieldOrder = [sampleClass, CoreLibrary.objectRecord] from rfl] at hd
    simp only [List.mem_cons, List.not_mem_nil, or_false] at hd
    rcases hd with rfl | rfl <;> cases hinterface
  obtain ⟨hsize, hfits⟩ := hslots _ _ _ ho rfl
  exact ⟨c, _, hr.trans hr', ho, rfl, hsize.symm, hi, hfits hi 0 _ rfl, hget 1 _ _, hput 1 _ _⟩

end BytecodeMachine
