import BytecodeMachine.Proofs.Construction

namespace BytecodeMachine

variable {α : Type}

namespace Frame

inductive Received (b : Frame) : Frame → Prop
  | nothing : Received b b
  | value (v : Value) : Received b { b with stack := v :: b.stack }
  | exception (o : ObjectId) : Received b { b with tossed := some o }

def stepped (f : Frame) : Frame :=
  { f with lastPc := f.pc, pc := f.pc + 1, steps := f.steps + 1 }

theorem activation_of_enter {c : Class} {m : Method} {arguments : List Value} {f : Frame}
    (h : enter c m arguments = .ok f) : f.activation = some ⟨c, m⟩ := by
  unfold enter at h
  repeat' split at h
  all_goals cases h
  rfl

end Frame

abbrev Frames := List Frame

namespace Frames

structure SameBelow (fs fs' : Frames) : Prop where
  length : fs'.length = fs.length
  tail : fs'.tail = fs.tail

theorem SameBelow.refl (fs : Frames) : SameBelow fs fs := ⟨rfl, rfl⟩

theorem SameBelow.trans {fs1 fs2 fs3 : Frames} (h : SameBelow fs1 fs2) (h' : SameBelow fs2 fs3) :
    SameBelow fs1 fs3 :=
  ⟨h'.length.trans h.length, h'.tail.trans h.tail⟩

theorem SameBelow.cons {f : Frame} {rest fs : Frames} (h : SameBelow (f :: rest) fs) :
    ∃ f', fs = f' :: rest := by
  cases fs with
  | nil => cases h.length
  | cons f' rest' => exact ⟨f', congrArg (f' :: ·) h.tail⟩

inductive OnStack : Frames → Frames → Prop
  | refl (fs : Frames) : OnStack fs fs
  | stack (f : Frame) (stack : List Value) (rest : Frames) :
      OnStack (f :: rest) ({ f with stack := stack } :: rest)

theorem OnStack.trans {fs1 fs2 fs3 : Frames} (h : OnStack fs1 fs2) (h' : OnStack fs2 fs3) :
    OnStack fs1 fs3 := by
  cases h with
  | refl => exact h'
  | stack f stack rest =>
    cases h' with
    | refl => exact .stack f stack rest
    | stack _ stack' => exact .stack f stack' rest

theorem OnStack.sameBelow {fs fs' : Frames} (h : OnStack fs fs') : SameBelow fs fs' := by
  cases h with
  | refl => exact .refl fs
  | stack f stack rest => exact ⟨rfl, rfl⟩

inductive Left (fs : Frames) : Frames → Prop
  | plain {f : Frame} {rest : Frames} (h : fs = f :: rest) : Left fs rest
  | value {f c : Frame} {rest : Frames} (v : Value) (h : fs = f :: c :: rest) :
      Left fs ({ c with stack := v :: c.stack } :: rest)

inductive Entered (fs : Frames) : Except Trap α → Frames → Prop
  | failed {trap : Trap} {fs' : Frames} (h : OnStack fs fs') : Entered fs (.error trap) fs'
  | same {a : α} {fs' : Frames} (h : SameBelow fs fs') : Entered fs (.ok a) fs'
  | pushed {a : α} {fs' : Frames} (f : Frame) (h : SameBelow fs fs') : Entered fs (.ok a) (f :: fs')

theorem Entered.over {b : Frame} {rest fs : Frames} {r : Except Trap α}
    (h : Entered (b :: rest) r fs) : ∃ pre b', fs = pre ++ b' :: rest := by
  cases h with
  | failed hs =>
    obtain ⟨b', rfl⟩ := hs.sameBelow.cons
    exact ⟨[], b', rfl⟩
  | same hs =>
    obtain ⟨b', rfl⟩ := hs.cons
    exact ⟨[], b', rfl⟩
  | pushed f hs =>
    obtain ⟨b', rfl⟩ := hs.cons
    exact ⟨[f], b', rfl⟩

inductive Called (fs : Frames) : Except Trap α → Frames → Prop
  | entered {r : Except Trap α} {fs' : Frames} (h : Entered fs r fs') : Called fs r fs'
  | left {a : α} {fs' : Frames} (h : Left fs fs') : Called fs (.ok a) fs'
  | lost {trap : Trap} {f : Frame} {fs' : Frames} (ht : trap.isCatchable = false)
      (h : fs = f :: fs') : Called fs (.error trap) fs'

theorem SameBelow.symm {fs fs' : Frames} (h : SameBelow fs fs') : SameBelow fs' fs :=
  ⟨h.length.symm, h.tail.symm⟩

theorem Entered.onStack {fs fs' : Frames} {r : Except Trap α} (h : OnStack fs fs') :
    Entered fs r fs' := by
  cases r with
  | ok a => exact .same h.sameBelow
  | error trap => exact .failed h

theorem Called.onStack {fs fs' : Frames} {r : Except Trap α} (h : OnStack fs fs') :
    Called fs r fs' :=
  .entered (.onStack h)

theorem Left.after {fs gs fs' : Frames} (h : SameBelow fs gs) (hl : Left gs fs') : Left fs fs' := by
  cases hl with
  | plain hg =>
    subst hg
    obtain ⟨f', rfl⟩ := h.symm.cons
    exact .plain rfl
  | value v hg =>
    subst hg
    obtain ⟨f', rfl⟩ := h.symm.cons
    exact .value v rfl

inductive Above (b : Frame) (rest : Frames) : Frames → Prop
  | more (pre : Frames) (f : Frame) : Above b rest (f :: pre ++ b :: rest)
  | last {b' : Frame} (h : b.Received b') : Above b rest (b' :: rest)

theorem Above.of_tail {b : Frame} {rest : Frames} (pre : Frames) :
    Above b rest (pre ++ b :: rest) := by
  cases pre with
  | nil => exact .last .nothing
  | cons f pre => exact .more pre f

theorem Above.of_sameBelow {f b : Frame} {pre rest fs : Frames}
    (h : SameBelow (f :: pre ++ b :: rest) fs) : Above b rest fs := by
  obtain ⟨f', rfl⟩ := h.cons
  exact .more pre f'

theorem Above.of_left {f b : Frame} {pre rest fs : Frames}
    (h : Left (f :: pre ++ b :: rest) fs) : Above b rest fs := by
  cases h with
  | plain hf =>
    cases hf
    exact .of_tail pre
  | value v hf =>
    cases pre with
    | nil =>
      cases hf
      exact .last (.value v)
    | cons c pre =>
      cases hf
      exact .more pre _

theorem Above.of_called {f b : Frame} {pre rest fs : Frames} {a : α}
    (h : Called (f :: pre ++ b :: rest) (.ok a : Except Trap α) fs) : Above b rest fs := by
  cases h with
  | entered he =>
    cases he with
    | same hs => exact .of_sameBelow hs
    | pushed g hs =>
      obtain ⟨f', rfl⟩ := hs.cons
      exact .more (f' :: pre) g
  | left hl => exact .of_left hl

theorem Called.after {fs gs fs' : Frames} {r : Except Trap α} (h : OnStack fs gs)
    (hc : Called gs r fs') : Called fs r fs' := by
  cases hc with
  | entered he =>
    cases he with
    | failed hs => exact .entered (.failed (h.trans hs))
    | same hs => exact .entered (.same (h.sameBelow.trans hs))
    | pushed f hs => exact .entered (.pushed f (h.sameBelow.trans hs))
  | left hl => exact .left (hl.after h.sameBelow)
  | lost ht hg =>
    subst hg
    obtain ⟨f', rfl⟩ := h.sameBelow.symm.cons
    exact .lost ht rfl

theorem Called.error {f : Frame} {rest fs : Frames} {trap : Trap}
    (h : Called (f :: rest) (.error trap : Except Trap α) fs) :
    (∃ stack, fs = { f with stack := stack } :: rest) ∨ trap.isCatchable = false ∧ fs = rest := by
  cases h with
  | entered he =>
    cases he with
    | failed hs =>
      cases hs with
      | refl => exact .inl ⟨f.stack, rfl⟩
      | stack _ stack => exact .inl ⟨stack, rfl⟩
  | lost ht hf =>
    cases hf
    exact .inr ⟨ht, rfl⟩

theorem Called.error_nil {fs : Frames} {trap : Trap}
    (h : Called [] (.error trap : Except Trap α) fs) : fs = [] := by
  cases h with
  | entered he =>
    cases he with
    | failed hs =>
      cases hs
      rfl
  | lost _ hf => cases hf

structure HandedBack (limit : Nat) (fs fs' : Frames) : Prop where
  length : fs'.length = limit
  below : fs'.tail = (fs.drop (fs.length - limit)).tail
  top : ∃ b b', (fs.drop (fs.length - limit)).head? = some b ∧ fs'.head? = some b' ∧ b.Received b'

theorem exists_append_of_lt {limit : Nat} {fs : Frames} (h1 : 1 ≤ limit) (h2 : limit < fs.length) :
    ∃ pre b rest, fs = pre ++ b :: rest ∧ rest.length + 1 = limit ∧
      fs.drop (fs.length - limit) = b :: rest := by
  have hlen : (fs.drop (fs.length - limit)).length = limit := by
    rw [List.length_drop]
    omega
  cases hd : fs.drop (fs.length - limit) with
  | nil =>
    rw [hd] at hlen
    simp only [List.length_nil] at hlen
    omega
  | cons b rest =>
    rw [hd] at hlen
    refine ⟨fs.take (fs.length - limit), b, rest, ?_, hlen, rfl⟩
    rw [← hd, List.take_append_drop]

end Frames

end BytecodeMachine
