import BytecodeMachine.Proofs.Actions

namespace BytecodeMachine

variable {α : Type}

namespace Frame

variable {v : Value} {us vs below : List Value} {n : Nat}

-- A stack slot by slot: each slot is a half of a value, and the upper half is nearer to the top.
def spread (stack : List Value) : List (Value × Nat) :=
  stack.flatMap fun v => (List.range v.width).reverse.map (v, ·)

theorem spread_cons (v : Value) (vs : List Value) :
    spread (v :: vs) = (List.range v.width).reverse.map (v, ·) ++ spread vs := rfl

theorem spread_append (us vs : List Value) : spread (us ++ vs) = spread us ++ spread vs :=
  List.flatMap_append

theorem length_spread_cons (v : Value) (vs : List Value) :
    (spread (v :: vs)).length = v.width + (spread vs).length := by
  simp [spread_cons]

theorem eq_nil_of_length_spread (h : (spread vs).length = 0) : vs = [] := by
  cases vs with
  | nil => rfl
  | cons v vs =>
    rw [length_spread_cons] at h
    rcases v.width_eq_one_or_two with hv | hv <;> omega

theorem spread_injective (h : spread us = spread vs) : us = vs := by
  induction us generalizing vs with
  | nil => exact (eq_nil_of_length_spread (by rw [← h]; rfl)).symm
  | cons u us ih =>
    cases vs with
    | nil => exact eq_nil_of_length_spread (by rw [h]; rfl)
    | cons v vs =>
      have top (w : Value) (ws : List Value) :
          (spread (w :: ws)).head? = some (w, w.width - 1) := by
        rcases w.width_eq_one_or_two with hw | hw <;> simp [spread_cons, hw, List.range_succ]
      have hhead := congrArg List.head? h
      rw [top, top] at hhead
      cases hhead
      rw [spread_cons, spread_cons, List.append_cancel_left_eq] at h
      rw [ih h]

def IsEdge (stack : List Value) (n : Nat) : Prop :=
  ∃ above below, stack = above ++ below ∧ (spread above).length = n

theorem isEdge_zero (stack : List Value) : IsEdge stack 0 := ⟨[], stack, rfl, rfl⟩

theorem isEdge_nil_iff : IsEdge [] n ↔ n = 0 := by
  constructor
  · rintro ⟨above, below, hs, rfl⟩
    rw [(List.append_eq_nil_iff.1 hs.symm).1]
    rfl
  · rintro rfl
    exact isEdge_zero []

theorem isEdge_append_iff : IsEdge (vs ++ below) ((spread vs).length + n) ↔ IsEdge below n := by
  constructor
  · rintro ⟨us, rest, hs, hn⟩
    rcases List.append_eq_append_iff.1 hs with ⟨cs, rfl, rfl⟩ | ⟨cs, rfl, rfl⟩
    · refine ⟨cs, rest, rfl, ?_⟩
      rw [spread_append, List.length_append] at hn
      omega
    · rw [spread_append, List.length_append] at hn
      obtain rfl : n = 0 := by omega
      exact isEdge_zero below
  · rintro ⟨us, rest, rfl, rfl⟩
    exact ⟨vs ++ us, rest, (List.append_assoc ..).symm, by rw [spread_append, List.length_append]⟩

theorem isEdge_cons_iff : IsEdge (v :: below) (v.width + n) ↔ IsEdge below n := by
  have h : IsEdge ([v] ++ below) ((spread [v]).length + n) ↔ IsEdge below n := isEdge_append_iff
  rwa [length_spread_cons] at h

-- There is no edge in the middle of a value.
theorem not_isEdge_cons (h : n + 1 < v.width) : ¬ IsEdge (v :: below) (n + 1) := by
  rintro ⟨above, rest, hs, hn⟩
  cases above with
  | nil => cases hn
  | cons w ws =>
    cases hs
    rw [length_spread_cons] at hn
    omega

end Frame

namespace Shuffle

def blocks : Shuffle → List Nat
  | .pop | .dup => [1]
  | .pop2 | .dup2 => [2]
  | .dupX1 | .swap => [1, 1]
  | .dupX2 => [1, 2]
  | .dup2X1 => [2, 1]
  | .dup2X2 => [2, 2]

def order : Shuffle → List Nat
  | .pop | .pop2 => []
  | .dup | .dup2 => [0, 0]
  | .swap => [1, 0]
  | .dupX1 | .dupX2 | .dup2X1 | .dup2X2 => [0, 1, 0]

def edges : Nat → List Nat → List Nat
  | k, [] => [k]
  | k, n :: ns => k :: edges (k + n) ns

def cut : List Nat → List α → Option (List (List α) × List α)
  | [], xs => some ([], xs)
  | n :: ns, xs =>
      if xs.length < n then none
      else (cut ns (xs.drop n)).map fun c => (xs.take n :: c.1, c.2)

def arrange (s : Shuffle) (bs : List (List α)) : List α :=
  s.order.flatMap fun i => bs[i]?.getD []

def onSlots (s : Shuffle) (xs : List α) : Option (List α) :=
  (cut s.blocks xs).map fun c => s.arrange c.1 ++ c.2

example : dup2X1.onSlots [1, 2, 3, 4] = some [1, 2, 3, 1, 2, 4] := rfl

open BytecodeMachine.Frame

variable {vs below : List Value}

theorem mem_edges (k : Nat) (ns : List Nat) : k ∈ edges k ns := by
  cases ns <;> simp [edges]

theorem isEdge_edges_iff (vs : List Value) (ns : List Nat) (n : Nat) :
    (∀ k ∈ edges ((spread vs).length + n) ns, IsEdge (vs ++ below) k) ↔
      ∀ k ∈ edges n ns, IsEdge below k := by
  induction ns generalizing n with
  | nil => simp [edges, isEdge_append_iff]
  | cons m ns ih => simp [edges, isEdge_append_iff, Nat.add_assoc, ih]

theorem isEdge_edges_cons_iff (ns : List Nat) :
    (∀ k ∈ edges 0 ((spread vs).length :: ns), IsEdge (vs ++ below) k) ↔
      ∀ k ∈ edges 0 ns, IsEdge below k := by
  rw [← isEdge_edges_iff vs ns 0]
  simp [edges, isEdge_zero]

theorem isEdge_of_blocks (bs : List (List Value)) (below : List Value) :
    ∀ k ∈ edges 0 (bs.map fun b => (spread b).length), IsEdge (bs.flatten ++ below) k := by
  induction bs with
  | nil => simp [edges, isEdge_zero]
  | cons b bs ih =>
    rw [List.map_cons, List.flatten_cons, List.append_assoc, isEdge_edges_cons_iff]
    exact ih

theorem cut_spread (bs : List (List Value)) (below : List Value) :
    cut (bs.map fun b => (spread b).length) (spread (bs.flatten ++ below)) =
      some (bs.map spread, spread below) := by
  induction bs with
  | nil => rfl
  | cons b bs ih =>
    rw [List.map_cons, cut, List.flatten_cons, List.append_assoc, spread_append, if_neg (by simp),
      List.drop_left, List.take_left, ih]
    rfl

theorem spread_arrange (s : Shuffle) (bs : List (List Value)) :
    spread (s.arrange bs) = s.arrange (bs.map spread) := by
  have block (i : Nat) : spread (bs[i]?.getD []) = (bs.map spread)[i]?.getD [] := by
    rw [List.getElem?_map]
    cases bs[i]? <;> rfl
  simp only [arrange, ← block]
  exact List.flatMap_assoc

end Shuffle

namespace FrameM

def popBlock : Nat → FrameM (List Value)
  | 0 => pure []
  | 1 => do pure [← popNarrow]
  | n + 2 => do
      let v ← pop
      if v.width = 1 then pure (v :: (← popBlock (n + 1)))
      else pure (v :: (← popBlock n))

def popBlocks : List Nat → FrameM (List (List Value))
  | [] => pure []
  | n :: ns => do
      let b ← popBlock n
      pure (b :: (← popBlocks ns))

theorem pushAll_nil : pushAll [] = pure () := rfl

theorem shuffle_eq (s : Shuffle) :
    shuffle s = popBlocks s.blocks >>= fun bs => pushAll (s.arrange bs).reverse := by
  cases s
  all_goals
    simp only [shuffle, Shuffle.blocks, Shuffle.arrange, Shuffle.order, popBlocks, popBlock,
      bind_assoc, pure_bind]
  case pop | dup | dupX1 | swap => rfl
  case dupX2 =>
    refine bind_congr fun a => bind_congr fun b => ?_
    split <;> simp
  case pop2 | dup2 | dup2X1 =>
    refine bind_congr fun a => ?_
    split <;> simp [pushAll_nil]
  case dup2X2 =>
    refine bind_congr fun a => ?_
    split
    · simp only [bind_assoc, pure_bind]
      refine bind_congr fun b => bind_congr fun c => ?_
      split <;> simp
    · simp only [pure_bind]
      refine bind_congr fun b => ?_
      split <;> simp

variable {f : Frame}

open BytecodeMachine.Frame Shuffle

theorem run_pop (f : Frame) : pop.run.run f = match f.stack with
    | [] => (.error (.fatal .stackUnderflow), f)
    | v :: rest => (.ok v, { f with stack := rest }) := by
  obtain ⟨a, locals, stack, pc, lastPc, tossed, steps⟩ := f
  cases stack <;> rfl

theorem run_pushAll (vs : List Value) (f : Frame) :
    (pushAll vs).run.run f = (.ok (), { f with stack := vs.reverse ++ f.stack }) := rfl

inductive PopsBlock (f : Frame) (n : Nat) : Except Trap (List Value) × Frame → Prop
  | block (vs below : List Value) (hs : f.stack = vs ++ below) (hn : (spread vs).length = n) :
      PopsBlock f n (.ok vs, { f with stack := below })
  | split {fault : Fault} {g : Frame} (hn : ¬ IsEdge f.stack n) :
      PopsBlock f n (.error (.fatal fault), g)

theorem PopsBlock.cons {v : Value} {below : List Value} {n m : Nat} (hs : f.stack = v :: below)
    (hn : v.width + n = m)
    (h : PopsBlock { f with stack := below } n ((popBlock n).run.run { f with stack := below })) :
    PopsBlock f m
      ((do pure (v :: (← popBlock n)) : FrameM _).run.run { f with stack := below }) := by
  rw [run_bind]
  generalize (popBlock n).run.run { f with stack := below } = r at h
  cases h with
  | block vs rest hb hvs =>
    refine .block (v :: vs) rest ?_ ?_
    · rw [hs]
      exact congrArg (v :: ·) hb
    · rw [length_spread_cons, hvs, hn]
  | split hne => exact .split (by rwa [hs, ← hn, isEdge_cons_iff])

theorem run_popBlock (n : Nat) (f : Frame) : PopsBlock f n ((popBlock n).run.run f) := by
  induction n using popBlock.induct generalizing f with
  | case1 => exact .block [] f.stack rfl rfl
  | case2 =>
    rw [popBlock, run_bind, popNarrow, run_bind, run_pop]
    cases hs : f.stack with
    | nil => exact .split (by simp [hs, isEdge_nil_iff])
    | cons v below =>
      dsimp only
      rcases v.width_eq_one_or_two with hv | hv
      · rw [if_pos hv]
        refine .block [v] below hs ?_
        rw [length_spread_cons, hv]
        rfl
      · rw [if_neg (by omega)]
        refine .split ?_
        rw [hs]
        exact not_isEdge_cons (by omega)
  | case3 n ih1 ih2 =>
    rw [popBlock, run_bind, run_pop]
    cases hs : f.stack with
    | nil => exact .split (by simp [hs, isEdge_nil_iff])
    | cons v below =>
      have hwide := v.width_eq_one_or_two
      dsimp only
      split
      · exact .cons hs (by omega) (ih1 _)
      · exact .cons hs (by omega) (ih2 _)

inductive PopsBlocks (f : Frame) (ns : List Nat) : Except Trap (List (List Value)) × Frame → Prop
  | blocks (bs : List (List Value)) (below : List Value) (hs : f.stack = bs.flatten ++ below)
      (hn : (bs.map fun b => (spread b).length) = ns) :
      PopsBlocks f ns (.ok bs, { f with stack := below })
  | split {fault : Fault} {g : Frame} (hn : ¬ ∀ k ∈ edges 0 ns, IsEdge f.stack k) :
      PopsBlocks f ns (.error (.fatal fault), g)

theorem run_popBlocks (ns : List Nat) (f : Frame) :
    PopsBlocks f ns ((popBlocks ns).run.run f) := by
  induction ns generalizing f with
  | nil => exact .blocks [] f.stack rfl rfl
  | cons n ns ih =>
    rw [popBlocks, run_bind]
    have h := run_popBlock n f
    generalize (popBlock n).run.run f = r at h
    cases h with
    | split hn => exact .split fun h => hn (h n (by simp [edges, mem_edges]))
    | block vs below hs hn =>
      subst hn
      dsimp only
      rw [run_bind]
      have h := ih { f with stack := below }
      generalize (popBlocks ns).run.run { f with stack := below } = r at h
      cases h with
      | blocks bs rest hb hns =>
        refine .blocks (vs :: bs) rest ?_ (by rw [← hns]; rfl)
        rw [hs, List.flatten_cons, List.append_assoc, ← hb]
      | split hn => exact .split (by rwa [hs, isEdge_edges_cons_iff])

end FrameM

open FrameM Shuffle in
theorem Frame.shuffles_move_blocks (s : Shuffle) (f : Frame) :
    (((s.onSlots (spread f.stack)).isSome = true ∧ ∀ k ∈ edges 0 s.blocks, IsEdge f.stack k) ↔
      ∃ g, (shuffle s).run.run f = (.ok (), g)) ∧
    (∀ g, (shuffle s).run.run f = (.ok (), g) →
      s.onSlots (spread f.stack) = some (spread g.stack) ∧ g = { f with stack := g.stack } ∧
        ∀ stack, s.onSlots (spread f.stack) = some (spread stack) → stack = g.stack) ∧
    ∀ trap g, (shuffle s).run.run f = (.error trap, g) → ∃ fault, trap = .fatal fault := by
  rw [shuffle_eq, run_bind]
  have h := run_popBlocks s.blocks f
  generalize (popBlocks s.blocks).run.run f = r at h
  cases h with
  | blocks bs below hs hb =>
    have hedges := isEdge_of_blocks bs below
    have hcut := cut_spread bs below
    rw [hb, ← hs] at hedges hcut
    have hslots : s.onSlots (spread f.stack) = some (spread (s.arrange bs ++ below)) := by
      rw [onSlots, hcut, spread_append, spread_arrange]
      rfl
    rw [hslots]
    dsimp only
    rw [run_pushAll, List.reverse_reverse]
    refine ⟨⟨fun _ => ⟨_, rfl⟩, fun _ => ⟨rfl, hedges⟩⟩, ?_, ?_⟩
    · rintro g ⟨⟩
      exact ⟨rfl, rfl, fun stack h => (spread_injective (Option.some.inj h)).symm⟩
    · intro trap g h
      cases h
  | @split fault g hn =>
    refine ⟨⟨fun h => absurd h.2 hn, nofun⟩, nofun, ?_⟩
    rintro _ _ ⟨⟩
    exact ⟨fault, rfl⟩

end BytecodeMachine
