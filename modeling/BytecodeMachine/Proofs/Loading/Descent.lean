import BytecodeMachine.Proofs.Loading.Records
import Mathlib.Logic.Function.Iterate

namespace BytecodeMachine.ClassTable

variable {libraries : List Library} {table : ClassTable} {pending : List ClassName}
  {n m : ClassName} {d : Definition}

theorem mem_declared_of_mem_links (hd : define libraries n = .ok d) {l : Link} (hl : l ∈ d.links) :
    l.2 ∈ declared libraries n := by
  have supers (ha : n.isArray = true) (hl : l ∈ arraySupers) : l.2 ∈ declared libraries n := by
    refine List.mem_append_left _ ?_
    rw [declaredAbove_array ha]
    simp only [arraySupers, List.mem_cons, List.not_mem_nil, or_false] at hl
    rcases hl with rfl | rfl | rfl <;> simp
  cases defines hd with
  | arrayOf ha ht hm =>
    rcases List.mem_cons.1 hl with rfl | hl
    · refine List.mem_append_right _ ?_
      simp [declaredComponent?_of_parse ht, hm]
    · exact supers ha hl
  | baseArray ha => exact supers ha hl
  | primitive => cases hl
  | regular ha hdata hk =>
    refine List.mem_append_left _ ?_
    rw [declaredAbove_regular ha (isPrimitive_of_regular ha hd hk) hdata]
    exact hk.links l hl

theorem rank_lt_of_declared_array (ha : n.isArray = true) (hm : m ∈ declared libraries n) :
    rank m < rank n := by
  rcases List.mem_append.1 hm with hm | hm
  · rw [declaredAbove_array ha] at hm
    have hzero : rank m = 0 := by
      simp only [List.mem_cons, List.not_mem_nil, or_false] at hm
      rcases hm with rfl | rfl | rfl <;> decide
    rw [hzero]
    exact rank_pos ha
  · simp only [declaredComponent?] at hm
    split at hm
    · rename_i t ht
      exact rank_component ha ht (Option.mem_toList.1 hm)
    · cases hm

theorem mem_known_of_declared (ha : n.isArray = false) (hm : m ∈ declared libraries n) :
    n ∈ known libraries ∧ m ∈ declaredAbove libraries n := by
  have habove : m ∈ declaredAbove libraries n := by
    simpa [declared, declaredComponent?_eq_none ha] using hm
  refine ⟨?_, habove⟩
  simp only [declaredAbove, ha, Bool.false_eq_true, if_false] at habove
  split at habove
  · cases habove
  · split at habove
    · rename_i data hdata
      exact mem_known hdata
    · cases habove

def longest (libraries : List Library) : Nat :=
  (((known libraries).flatMap (declaredAbove libraries)).map rank).foldr max 0

theorem le_foldr_max {x : Nat} {xs : List Nat} (h : x ∈ xs) : x ≤ xs.foldr max 0 := by
  induction xs with
  | nil => cases h
  | cons y ys ih =>
    rcases List.mem_cons.1 h with rfl | h
    · exact Nat.le_max_left _ _
    · exact Nat.le_trans (ih h) (Nat.le_max_right _ _)

theorem rank_le_longest (hn : n ∈ known libraries) (hm : m ∈ declaredAbove libraries n) :
    rank m ≤ longest libraries :=
  le_foldr_max (List.mem_map_of_mem (List.mem_flatMap.2 ⟨n, hn, hm⟩))

-- Arrays on the way down to a component are counted by the rank; any other step uses up a name that
-- some library has, and meets arrays of no more than the greatest rank above it.
def height (libraries : List Library) (pending : List ClassName) (n : ClassName) : Nat :=
  rank n + remaining libraries pending * (longest libraries + 1)

theorem height_lt_of_declared (hp : n ∉ pending) (hm : m ∈ declared libraries n) :
    height libraries (n :: pending) m < height libraries pending n := by
  unfold height
  cases ha : n.isArray with
  | true =>
    have hrank := rank_lt_of_declared_array ha hm
    have hle : remaining libraries (n :: pending) ≤ remaining libraries pending :=
      absent_cons_le (known libraries) n pending
    have := Nat.mul_le_mul_right (longest libraries + 1) hle
    omega
  | false =>
    obtain ⟨hn, habove⟩ := mem_known_of_declared ha hm
    have hrank := rank_le_longest hn habove
    have hlt : remaining libraries (n :: pending) < remaining libraries pending :=
      absent_cons_lt hn hp
    have := Nat.mul_le_mul_right (longest libraries + 1) hlt
    rw [Nat.succ_mul] at this
    omega

theorem load_induction (libraries : List Library) {P : List ClassName → ClassName → Prop}
    (h : ∀ pending n, (∀ d, n ∉ pending → define libraries n = .ok d →
      ∀ l ∈ d.links, P (n :: pending) l.2) → P pending n)
    (pending : List ClassName) (n : ClassName) : P pending n := by
  induction hk : height libraries pending n using Nat.strongRecOn generalizing pending n with
  | ind k ih =>
    subst hk
    refine h pending n fun d hp hd l hl => ih _ ?_ _ _ rfl
    exact height_lt_of_declared hp (mem_declared_of_mem_links hd hl)

section Unrolled

variable (self : List ClassName → ClassName → ClassTable → Except LinkError Class × ClassTable)

def linksBy (pending : List ClassName) (owner : ClassName) (links : List Link) (table : ClassTable) :
    Except LinkError (List Class) × ClassTable :=
  match links with
  | [] => (.ok [], table)
  | (role, n) :: rest =>
      match self pending n table with
      | (.error e, table) => (.error e, table)
      | (.ok c, table) =>
          match role.refuse? owner c with
          | some e => (.error e, table)
          | none =>
              match linksBy pending owner rest table with
              | (.error e, table) => (.error e, table)
              | (.ok cs, table) => (.ok (c :: cs), table)

def loadBy (libraries : List Library) (pending : List ClassName) (n : ClassName)
    (table : ClassTable) : Except LinkError Class × ClassTable :=
  match table.get? n with
  | some c => (.ok c, table)
  | none =>
      if n ∈ pending then (.error (.malformed n .circular), table)
      else match define libraries n with
        | .error e => (.error e, table)
        | .ok d =>
            match linksBy self (n :: pending) n d.links table with
            | (.error e, table) => (.error e, table)
            | (.ok cs, table) => (.ok (register (d.build cs) table).1, (register (d.build cs) table).2)

variable {self}

theorem linksBy_eq {owner : ClassName} {links : List Link}
    (h : ∀ l ∈ links, self pending l.2 = load libraries pending l.2) (table : ClassTable) :
    linksBy self pending owner links table = loadLinks libraries pending owner links table := by
  induction links generalizing table with
  | nil => rw [linksBy, loadLinks]
  | cons l rest ih =>
    obtain ⟨role, m⟩ := l
    obtain ⟨hl, hrest⟩ := List.forall_mem_cons.1 h
    rw [linksBy, loadLinks, hl]
    rcases load libraries pending m table with ⟨_ | c, table⟩
    · rfl
    · dsimp only
      cases role.refuse? owner c with
      | some e => rfl
      | none =>
        have hlinks := ih hrest table
        rcases hr : loadLinks libraries pending owner rest table with ⟨_ | cs, t⟩
        all_goals
          rw [hr] at hlinks
          simp only [hlinks]

theorem loadBy_eq
    (h : ∀ d, n ∉ pending → define libraries n = .ok d →
      ∀ l ∈ d.links, self (n :: pending) l.2 = load libraries (n :: pending) l.2) :
    loadBy self libraries pending n = load libraries pending n := by
  funext table
  cases hn : table.get? n with
  | some c => rw [loadBy, load, hn]
  | none =>
    by_cases hp : n ∈ pending
    · rw [loadBy, load, hn]
      simp only [if_pos hp, dif_pos hp]
    · cases hd : define libraries n with
      | error e => simp only [loadBy, hn, if_neg hp, hd, load_of_error hn hp hd]
      | ok d =>
        rcases hr : loadLinks libraries (n :: pending) n d.links table with ⟨_ | cs, t⟩
        all_goals
          simp only [loadBy, hn, if_neg hp, hd, load_of_define hn hp hd, linksBy_eq (h d hp hd), hr]

-- Below the height there is nothing left to load, so it does not matter what would be done there.
theorem iterate_loadBy
    (other : List ClassName → ClassName → ClassTable → Except LinkError Class × ClassTable) {k : Nat}
    (hk : height libraries pending n < k) :
    (fun self => loadBy self libraries)^[k] other pending n = load libraries pending n := by
  induction k generalizing pending n with
  | zero => cases hk
  | succ k ih =>
    rw [Function.iterate_succ_apply']
    refine loadBy_eq fun d hp hd l hl => ih ?_
    have := height_lt_of_declared hp (mem_declared_of_mem_links hd hl)
    omega

end Unrolled

end BytecodeMachine.ClassTable
