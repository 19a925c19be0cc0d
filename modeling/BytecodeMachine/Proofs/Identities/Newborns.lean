import BytecodeMachine.Proofs.Weaving

namespace BytecodeMachine

variable {α β : Type}

-- An object that its thread has just made to enter it in a table, and the name of its class.
structure Newborn where
  object : ObjectId
  klass : ClassName

namespace Machine

structure Orderly (m : Machine) : Prop where
  libraries : ∃ rest, m.libraries = CoreLibrary.library :: rest
  closed : ClassTable.Closed m.libraries m.classes

theorem Abides.orderly {m m' : Machine} (h : m.Abides m') (hm : m.Orderly) : m'.Orderly := by
  constructor
  · rw [h.libraries]
    exact hm.libraries
  · rw [h.libraries]
    exact h.loaded.closed hm.closed

structure Respects (i : Nat) (m m' : Machine) : Prop where
  orderly : m'.Orderly
  errors : ∀ j, j ≠ i → m'.errors? j = m.errors? j

theorem Leaves.respects {m m' : Machine} (h : m.Leaves m') (hm : m.Orderly) (i : Nat) :
    m.Respects i m' :=
  ⟨h.orderly hm, fun j _ => h.errors j⟩

inductive Raises (m : Machine) : List Newborn → Machine → List Newborn → Prop
  | leave {l : List Newborn} {m' : Machine} (h : m.Retains m') : Raises m l m' l
  | make {l : List Newborn} {b : Newborn} {m' : Machine} (h : m.Retains m')
      (hfree : m.heap.get? b.object = none) (hb : m'.IsOf b.object b.klass) :
      Raises m l m' (b :: l)
  | enroll {l : List Newborn} (n : ClassName) (o : ObjectId) :
      Raises m (⟨o, .klass⟩ :: l) (m.enroll n o).2 l
  | keep {l : List Newborn} (text : String) (b : Newborn) :
      Raises m (b :: l) (m.keep text b.object).2 l

theorem Raises.append {m m' : Machine} {l l' : List Newborn} (h : m.Raises l m' l')
    (older : List Newborn) : m.Raises (l ++ older) m' (l' ++ older) := by
  cases h with
  | leave h => exact .leave h
  | make h hfree hb => exact .make h hfree hb
  | enroll n o => exact .enroll n o
  | keep text b => exact .keep text b

end Machine

namespace Prog

-- The computation ends with some of these newborns at least. Others may be given up at any time.
def Raises (i : Nat) (Q : α → Prop) (kept : List Newborn) : Prog α → List Newborn → Prop
  | .done a, l => kept <:+ l ∧ Q a
  | .step f next, l => ∀ m : Machine, m.Orderly → m.Respects i (f m).2 ∧ ∃ l1 l2,
      l1 <:+ l ∧ m.Raises l1 (f m).2 l2 ∧ (next (f m).1).Raises i Q kept l2
  | .sign _ next, l => next.Raises i Q kept l
  | .wait _ next, l => ∀ w, (next w).Raises i Q kept l
  | .starved, _ => True

variable {i : Nat} {P Q : α → Prop} {R : β → Prop} {p : Prog α} {f : α → Prog β} {kept l l' : List Newborn}

theorem Raises.mono (h : p.Raises i P kept l) (hl : l <:+ l') (hq : ∀ a, P a → Q a) :
    p.Raises i Q kept l' := by
  induction p generalizing l l' with
  | done a => exact ⟨h.1.trans hl, hq a h.2⟩
  | step f next ih =>
    intro m hm
    obtain ⟨hc, l1, l2, h1, h2, hn⟩ := h m hm
    exact ⟨hc, l1, l2, h1.trans hl, h2, ih _ hn List.suffix_rfl⟩
  | sign x next ih => exact ih h hl
  | wait b next ih => exact fun w => ih w (h w) hl
  | starved => trivial

-- What the computation does not know of stays in the hands of its thread.
theorem Raises.append (h : p.Raises i Q kept l) (older : List Newborn) :
    p.Raises i Q (kept ++ older) (l ++ older) := by
  have under {l1 l2 : List Newborn} (h : l1 <:+ l2) : l1 ++ older <:+ l2 ++ older := by
    obtain ⟨newer, rfl⟩ := h
    exact ⟨newer, (List.append_assoc ..).symm⟩
  induction p generalizing l with
  | done a => exact ⟨under h.1, h.2⟩
  | step f next ih =>
    intro m hm
    obtain ⟨hc, l1, l2, h1, h2, hn⟩ := h m hm
    exact ⟨hc, l1 ++ older, l2 ++ older, under h1, h2.append older, ih _ hn⟩
  | sign x next ih => exact ih h
  | wait b next ih => exact fun w => ih w (h w)
  | starved => trivial

theorem Raises.bind (hp : p.Raises i Q kept l)
    (hf : ∀ a l, kept <:+ l → Q a → (f a).Raises i R [] l) : (p >>= f).Raises i R [] l := by
  change (p.bind f).Raises i R [] l
  induction p generalizing l with
  | done a => exact hf a l hp.1 hp.2
  | step g next ih =>
    intro m hm
    obtain ⟨hc, l1, l2, h1, h2, hn⟩ := hp m hm
    exact ⟨hc, l1, l2, h1, h2, ih _ hn⟩
  | sign x next ih => exact ih hp
  | wait b next ih => exact fun w => ih w (hp w)
  | starved => trivial

theorem IsMild.raises (h : p.IsMild) : p.Raises i (fun _ => True) [] l := by
  induction p with
  | done a => exact ⟨List.nil_suffix, trivial⟩
  | step f next ih =>
    intro m hm
    exact ⟨(h.1 m).toLeaves.respects hm i, l, l, List.suffix_rfl, .leave (h.1 m).toRetains, ih _ (h.2 _)⟩
  | sign x next ih => exact ih h.2
  | wait b next ih => exact fun w => ih w (h.2 w)
  | starved => trivial

theorem raises_act {f : Machine → α × Machine}
    (h : ∀ m : Machine, m.Orderly → m.Respects i (f m).2 ∧ m.Retains (f m).2 ∧ Q (f m).1) :
    (act f).Raises i Q [] l := by
  intro m hm
  obtain ⟨hc, hr, hq⟩ := h m hm
  exact ⟨hc, l, l, List.suffix_rfl, .leave hr, List.nil_suffix, hq⟩

end Prog

namespace Exec

def Raises (i : Nat) (x : Exec α) (Q : α → Prop) : Prop :=
  ∀ t : Thread, t.id = i →
    (x.on t).Raises i (fun r => r.2.id = i ∧ ∀ a, r.1 = .ok a → Q a) [] []

variable {i : Nat} {x : Exec α} {f : α → Exec β} {P Q : α → Prop} {R : β → Prop}

namespace Raises

theorem bind (hx : x.Raises i Q) (hf : ∀ a, Q a → (f a).Raises i R) : (x >>= f).Raises i R := by
  intro t ht
  refine Prog.Raises.bind (hx t ht) fun r l hl hr => Prog.Raises.mono ?_ hl fun _ h => h
  obtain ⟨_ | a, t'⟩ := r
  · exact ⟨List.suffix_rfl, hr.1, nofun⟩
  · exact hf a (hr.2 a rfl) t' hr.1

theorem lift {p : Prog α} (h : p.Raises i Q [] []) : (Exec.lift p).Raises i Q := by
  refine fun t ht => Prog.Raises.bind h fun a l _ ha => ⟨List.nil_suffix, ht, fun b hb => ?_⟩
  cases hb
  exact ha

theorem attempt (hx : x.Raises i fun _ => True) : (Exec.attempt x).Raises i fun _ => True :=
  fun t ht => (hx t ht).bind fun _ _ _ hr => ⟨List.nil_suffix, hr.1, fun _ _ => trivial⟩

theorem resolve {res : List Library → Resolving α} {entry : α → ClassName × Class}
    (h : Resolving.Finds res entry) :
    (Exec.resolve res).Raises i fun a => (entry a).2.name = (entry a).1 := by
  have hact : (Exec.act (·.resolve res)).Raises i fun r =>
      ∀ a, r = .ok a → (entry a).2.name = (entry a).1 := by
    refine lift (Prog.raises_act fun m hm => ?_)
    have hl := Machine.leaves_resolve h m
    refine ⟨hl.respects hm i, hl.toRetains, fun a ha => ?_⟩
    have hk := h m.libraries m.classes
    exact (hk.1.closed hm.closed).name (hk.2 a ha)
  refine hact.bind fun r hr => ?_
  cases r with
  | error e => exact fun t ht => ⟨List.suffix_rfl, ht, nofun⟩
  | ok a =>
    refine fun t ht => ⟨List.suffix_rfl, ht, fun b hb => ?_⟩
    cases hb
    exact hr _ rfl

end Raises

theorem raises_newObject_bind {c : Class} {f : ObjectId → Exec α}
    (hf : ∀ o t, t.id = i → ((f o).on t).Raises i
      (fun r => r.2.id = i ∧ ∀ a, r.1 = .ok a → Q a) [] [⟨o, c.name⟩]) :
    (newObject c >>= f).Raises i Q := by
  intro t ht m hm
  have hl := Machine.leaves_alloc (.instanceOf c) (headerBytes + 8 * c.layout.length) m
  refine ⟨hl.respects hm i, [], [⟨(m.heap.alloc (.instanceOf c)).1, c.name⟩], List.suffix_rfl, ?_, hf _ t ht⟩
  refine .make hl.toRetains ?_ ⟨.instanceOf c, ?_, rfl⟩
  · exact Heap.get?_fresh m.heap (.instanceOf c)
  · exact Heap.get?_alloc_self m.heap (.instanceOf c)

theorem Woven.raises {x : Exec α} (h : Woven (fun _ => True) i x) :
    x.Raises i fun _ => True := by
  induction h with
  | pure a => exact fun t ht => ⟨List.suffix_rfl, ht, fun _ _ => trivial⟩
  | throw trap => exact fun t ht => ⟨List.suffix_rfl, ht, nofun⟩
  | bind _ _ ihx ihf => exact ihx.bind fun a _ => ihf a
  | get _ ih => exact fun t ht => ih t ht t ht
  | modify h => exact fun t ht => ⟨List.suffix_rfl, (h t).trans ht, fun _ _ => trivial⟩
  | set h => exact fun _ _ => ⟨List.suffix_rfl, h, fun _ _ => trivial⟩
  | attempt _ ih => exact ih.attempt
  | pass x => exact fun t ht => ⟨List.suffix_rfl, ht, fun _ _ => trivial⟩
  | await b => exact .lift fun _ => ⟨List.suffix_rfl, trivial⟩
  | lift h => exact .lift h.raises
  | act h => exact .lift (Prog.raises_act fun m hm => ⟨(h m).respects hm i, (h m).toRetains, trivial⟩)
  | resolve h _ ih => exact (Raises.resolve h).bind fun a ha => ih a ha trivial
  | enroll n hc =>
    refine raises_newObject_bind fun o t ht m hm => ?_
    refine ⟨⟨⟨hm.libraries, hm.closed⟩, fun _ _ => rfl⟩, _, [], List.suffix_rfl, hc ▸ .enroll n o, ?_⟩
    exact ⟨List.suffix_rfl, ht, fun _ _ => trivial⟩
  | keep c text _ ih =>
    refine raises_newObject_bind fun o t ht => ?_
    refine Prog.Raises.bind ((ih o t ht).append [⟨o, c.name⟩]) fun r l hl hr => ?_
    obtain ⟨_ | a, t'⟩ := r
    · exact ⟨List.nil_suffix, hr.1, nofun⟩
    · intro m hm
      refine ⟨⟨⟨hm.libraries, hm.closed⟩, fun _ _ => rfl⟩, _, [], hl, .keep text ⟨o, c.name⟩, ?_⟩
      exact ⟨List.suffix_rfl, hr.1, fun _ _ => trivial⟩
  | report index code =>
    refine .lift (Prog.raises_act fun m hm => ⟨⟨⟨hm.libraries, hm.closed⟩, fun j hj => ?_⟩, ?_, trivial⟩)
    · rw [Machine.errors?_setError, if_neg hj]
    · exact ⟨.of_heap rfl rfl, rfl⟩

end Exec

end BytecodeMachine
