import BytecodeMachine.Proofs.Completion
import BytecodeMachine.Proofs.Loading.CoreClasses
import BytecodeMachine.Proofs.ThreadRecords

namespace BytecodeMachine

variable {α β : Type} {i thread : Nat} {t : Thread} {s : Scene} {m m1 m2 m3 m' : Machine}

namespace Machine

def Free (thread : Nat) (m : Machine) : Prop := ∀ l, m.lock = some l → l.owner = thread

structure Serves (thread : Nat) (m : Machine) : Prop where
  libraries : ∃ rest, m.libraries = CoreLibrary.library :: rest
  closed : ClassTable.Closed m.libraries m.classes
  alive : m.shouldTerminate thread = false
  free : m.Free thread

structure Continues (thread : Nat) (m m' : Machine) : Prop where
  libraries : m'.libraries = m.libraries
  classes : ClassTable.Loaded m.libraries m.classes m'.classes
  settings : m'.settings = m.settings
  threads : m'.threads = m.threads
  interned : m'.interned = m.interned
  natives : m'.natives = m.natives
  strings : m'.strings = m.strings
  pointers : m'.pointers = m.pointers
  free : m.Free thread → m'.Free thread

structure Prepares (thread : Nat) (m m' : Machine) : Prop extends Continues thread m m' where
  heap : m'.heap = m.heap
  classObjects : m'.classObjects = m.classObjects

structure Writes (thread : Nat) (h : Heap) (m m' : Machine) : Prop
    extends Continues thread m m' where
  heap : m'.heap = h
  classObjects : m'.classObjects = m.classObjects

theorem Continues.refl (m : Machine) : m.Continues thread m :=
  ⟨rfl, .refl, rfl, rfl, rfl, rfl, rfl, rfl, id⟩

theorem Continues.trans (h : m1.Continues thread m2) (h' : m2.Continues thread m3) :
    m1.Continues thread m3 where
  libraries := h'.libraries.trans h.libraries
  classes := h.classes.trans (h.libraries ▸ h'.classes)
  settings := h'.settings.trans h.settings
  threads := h'.threads.trans h.threads
  interned := h'.interned.trans h.interned
  natives := h'.natives.trans h.natives
  strings := h'.strings.trans h.strings
  pointers := h'.pointers.trans h.pointers
  free hf := h'.free (h.free hf)

theorem Prepares.refl (m : Machine) : m.Prepares thread m := ⟨.refl m, rfl, rfl⟩

theorem Prepares.trans (h : m1.Prepares thread m2) (h' : m2.Prepares thread m3) :
    m1.Prepares thread m3 where
  toContinues := h.toContinues.trans h'.toContinues
  heap := h'.heap.trans h.heap
  classObjects := h'.classObjects.trans h.classObjects

theorem Prepares.writes (h : m.Prepares thread m') : m.Writes thread m.heap m' :=
  ⟨h.toContinues, h.heap, h.classObjects⟩

theorem Writes.trans {h h' : Heap} (hw : m1.Writes thread h m2) (hw' : m2.Writes thread h' m3) :
    m1.Writes thread h' m3 :=
  ⟨hw.toContinues.trans hw'.toContinues, hw'.heap, hw'.classObjects.trans hw.classObjects⟩

theorem Writes.prepare {h : Heap} (hw : m1.Writes thread h m2) (hp : m2.Prepares thread m3) :
    m1.Writes thread h m3 :=
  ⟨hw.toContinues.trans hp.toContinues, hp.heap.trans hw.heap,
    hp.classObjects.trans hw.classObjects⟩

theorem writes_heap (h : Heap) (m : Machine) : m.Writes thread h { m with heap := h } :=
  ⟨⟨rfl, .refl, rfl, rfl, rfl, rfl, rfl, rfl, id⟩, rfl, rfl⟩

theorem writes_alloc (x : Object) (bytes : Nat) (m : Machine) :
    m.Writes thread (m.heap.alloc x).2 (m.alloc x bytes).2 :=
  ⟨⟨rfl, .refl, rfl, rfl, rfl, rfl, rfl, rfl, id⟩, rfl, rfl⟩

theorem Serves.continue (hs : m.Serves thread) (h : m.Continues thread m') : m'.Serves thread where
  libraries := h.libraries ▸ hs.libraries
  closed := h.libraries ▸ h.classes.closed hs.closed
  alive := by
    rw [← hs.alive]
    simp only [shouldTerminate, record?, h.threads]
  free := h.free hs.free

theorem prepares_note (e : Event) (m : Machine) : m.Prepares thread (m.note e) :=
  ⟨⟨rfl, .refl, rfl, rfl, rfl, rfl, rfl, rfl, id⟩, rfl, rfl⟩

theorem prepares_setInitState (n : ClassName) (x : InitState) (m : Machine) :
    m.Prepares thread (m.setInitState n x) :=
  ⟨⟨rfl, .refl, rfl, rfl, rfl, rfl, rfl, rfl, id⟩, rfl, rfl⟩

theorem prepares_resolve {res : List Library → Resolving α} {R : α → ClassTable → Prop}
    (h : ∀ libraries table, (res libraries).Keeps libraries R table) (m : Machine) :
    m.Prepares thread (m.resolve res).2 := by
  have step : ∀ (l : ClassTable) (m1 : Machine), m.Prepares thread m1 →
      m.Prepares thread (l.foldl (fun m e => m.note (.loaded e.1)) m1) := by
    intro l
    induction l with
    | nil => exact fun _ hr => hr
    | cons e l ih => exact fun m1 hr => ih _ (hr.trans (prepares_note _ m1))
  exact step _ _ ⟨⟨rfl, (h m.libraries m.classes).1, rfl, rfl, rfl, rfl, rfl, rfl, id⟩, rfl, rfl⟩

theorem prepares_unlock (m : Machine) : m.Prepares thread m.unlock := by
  unfold unlock
  split
  · exact .refl m
  · rename_i l hl
    refine ⟨⟨rfl, .refl, rfl, rfl, rfl, rfl, rfl, rfl, fun hf k hk => ?_⟩, rfl, rfl⟩
    dsimp only at hk
    split at hk
    · cases hk
    · cases hk
      exact hf l hl

theorem Serves.exists_lock (h : m.Serves thread) :
    ∃ m', m.lock? thread = some m' ∧ m.Prepares thread m' := by
  unfold lock?
  split
  · refine ⟨_, rfl, ⟨rfl, .refl, rfl, rfl, rfl, rfl, rfl, rfl, fun _ l hl => ?_⟩, rfl, rfl⟩
    cases hl
    rfl
  · rename_i l hl
    have ho := h.free l hl
    refine ⟨_, if_pos ho, ⟨rfl, .refl, rfl, rfl, rfl, rfl, rfl, rfl, fun _ k hk => ?_⟩, rfl, rfl⟩
    cases hk
    exact ho

theorem Serves.load (hs : m.Serves thread) {n : ClassName} {c : Class}
    (hc : CoreLibrary.Provides n c) : (ClassTable.load m.libraries [] n m.classes).1 = .ok c := by
  have h := hs.closed
  obtain ⟨rest, hl⟩ := hs.libraries
  rw [hl] at h ⊢
  exact hc rest _ h

end Machine

namespace Exec

def Turns (x : Exec α) (i : Nat) (t u : Thread) (P : α → Machine → Prop) (s : Scene) : Prop :=
  x.Ends i t (fun r t' s' => t' = u ∧ ∃ a, r = .ok a ∧ P a s'.machine) s

abbrev Gives (x : Exec α) (i : Nat) (t : Thread) (P : α → Machine → Prop) (s : Scene) : Prop :=
  x.Turns i t t P s

variable {P : α → Machine → Prop} {u v : Thread}

theorem Turns.mono {x : Exec α} {P' : α → Machine → Prop} (h : x.Turns i t u P s)
    (hp : ∀ a m, P a m → P' a m) : x.Turns i t u P' s := by
  refine Ends.mono h ?_
  rintro r t' s' ⟨ht, a, hr, ha⟩
  exact ⟨ht, a, hr, hp a _ ha⟩

theorem Turns.bind_ends {x : Exec α} {f : α → Exec β} {Q : Post β} (hx : x.Turns i t u P s)
    (hf : ∀ a s', P a s'.machine → (f a).Ends i u Q s') : (x >>= f).Ends i t Q s := by
  refine ends_bind.2 (Ends.mono hx ?_)
  rintro r t' s' ⟨rfl, a, rfl, ha⟩
  exact hf a s' ha

theorem Turns.bind {x : Exec α} {f : α → Exec β} {R : β → Machine → Prop}
    (hx : x.Turns i t u P s) (hf : ∀ a s', P a s'.machine → (f a).Turns i u v R s') :
    (x >>= f).Turns i t v R s :=
  hx.bind_ends hf

theorem Turns.attempt {x : Exec α} (hx : x.Turns i t u P s) :
    (attempt x).Turns i t u (fun r m => ∃ a, r = .ok a ∧ P a m) s := by
  refine ends_attempt.2 (Ends.mono hx ?_)
  rintro r t' s' ⟨ht, a, hr, ha⟩
  exact ⟨ht, r, rfl, a, hr, ha⟩

theorem Turns.exists_and {x : Exec α} {P' : α → Machine → Prop} (h : x.Turns i t u P s)
    (h' : x.Turns i t u P' s) : ∃ a m, P a m ∧ P' a m := by
  obtain ⟨⟨r, t'⟩, s', -, ⟨-, a, ha, hp⟩, -, b, hb, hp'⟩ := Prog.ends_iff_runs.1 (Prog.Ends.and h h')
  cases Except.ok.inj (ha.symm.trans hb)
  exact ⟨a, s'.machine, hp, hp'⟩

theorem turns_modify {f : Thread → Thread} :
    (modify f : Exec PUnit).Turns i t (f t) (fun _ m => m = s.machine) s :=
  ⟨rfl, (), rfl, rfl⟩

theorem gives_pure {a : α} (h : P a s.machine) : (pure a : Exec α).Gives i t P s :=
  ⟨rfl, a, rfl, h⟩

theorem gives_get : (get : Exec Thread).Gives i t (fun a m => a = t ∧ m = s.machine) s :=
  ⟨rfl, t, rfl, rfl, rfl⟩

theorem gives_turn : turn.Gives i t (fun _ m => m = s.machine) s := ends_turn ⟨rfl, (), rfl, rfl⟩

theorem gives_read {f : Machine → α} :
    (read f).Gives i t (fun a m => a = f s.machine ∧ m = s.machine) s :=
  ⟨rfl, _, rfl, rfl, rfl⟩

theorem gives_act {f : Machine → α × Machine} :
    (act f).Gives i t (fun a m => (a, m) = f s.machine) s :=
  ⟨rfl, _, rfl, rfl⟩

theorem gives_update (f : Machine → Machine) :
    (update f).Gives i t (fun _ m => m = f s.machine) s :=
  ⟨rfl, _, rfl, rfl⟩

theorem gives_note (e : Event) : (note e).Gives i t (fun _ m => m = s.machine.note e) s :=
  ⟨rfl, _, rfl, rfl⟩

theorem gives_object {o : ObjectId} {x : Object} (ho : s.machine.heap.get? o = some x) :
    (object o).Gives i t (fun a m => a = x ∧ m = s.machine) s := by
  refine gives_read.bind fun found s1 h1 => ?_
  rw [h1.1, ho]
  exact gives_pure ⟨rfl, h1.2⟩

theorem gives_classOf {o : ObjectId} {x : Object} (ho : s.machine.heap.get? o = some x) :
    (classOf o).Gives i t (fun c m => c = x.klass ∧ m = s.machine) s :=
  (gives_object ho).bind fun _ _ h1 => gives_pure ⟨congrArg _ h1.1, h1.2⟩

theorem gives_field {o : ObjectId} {x : Object} {slot : Nat} {v : Value}
    (ho : s.machine.heap.get? o = some x) (hv : x.field slot = .ok v) :
    (field o slot).Gives i t (fun a m => a = v ∧ m = s.machine) s := by
  refine (gives_object ho).bind fun a s1 h1 => ?_
  rw [h1.1, hv]
  exact gives_pure ⟨rfl, h1.2⟩

theorem gives_setField {o : ObjectId} {x : Object} {slot : Nat} {v : Value} (w : Value)
    (ho : s.machine.heap.get? o = some x) (hv : x.field slot = .ok v) :
    (setField o slot w).Gives i t
      (fun _ m => s.machine.Writes t.id (s.machine.heap.modify o (·.setField slot w)) m) s := by
  refine (gives_field ho hv).bind fun a s1 h1 => (gives_update _).mono fun _ m h => ?_
  rw [h, h1.2]
  exact Machine.writes_heap _ _

theorem gives_locked {x : Exec α} (hs : s.machine.Serves t.id)
    (hx : ∀ m, s.machine.Prepares t.id m →
      x.Gives i t (fun a m' => P a m'.unlock) (s.become m)) : (locked x).Gives i t P s := by
  obtain ⟨m, hl, hp⟩ := hs.exists_lock
  exact ends_locked hl (hx m hp)

section Loading

open ClassTable CoreLibrary

theorem gives_loadClass {n : ClassName} {c : Class}
    (hc : (load s.machine.libraries [] n s.machine.classes).1 = .ok c) :
    (loadClass n).Gives i t (fun k m => k = c ∧ s.machine.Prepares t.id m) s :=
  ends_resolve hc ⟨rfl, c, rfl, rfl, Machine.prepares_resolve (Resolving.finds_loadClass n) _⟩

theorem gives_record (hs : s.machine.Serves t.id) {n : ClassName} {c : Class}
    (hc : records.get? n = some c) :
    (loadClass n).Gives i t (fun k m => k = c ∧ s.machine.Prepares t.id m) s :=
  gives_loadClass (hs.load (provides_record hc))

theorem gives_arrayClass (hs : s.machine.Serves t.id) {component : FieldType} {n : ClassName}
    {c : Class} (hn : (FieldType.array component).className? = some n)
    (hc : records.get? n = some c) :
    (arrayClass component).Gives i t (fun k m => k = c ∧ s.machine.Prepares t.id m) s := by
  have hr : arrayClass component = loadClass n := by
    simp only [arrayClass, Resolving.arrayClass, hn, loadClass]
  rw [hr]
  exact gives_record hs hc

end Loading

end Exec

end BytecodeMachine
