import BytecodeMachine.Proofs.Loading.Descent
import Mathlib.Data.List.Induction

namespace BytecodeMachine.ClassTable

variable {libraries : List Library} {table table' : ClassTable} {pending : List ClassName}
  {n m : ClassName} {c : Class} {d : Definition}

theorem fst_loadLinks_cons (role : Role) (n : ClassName) (owner : ClassName) (rest : List Link)
    (table : ClassTable) :
    (loadLinks libraries pending owner ((role, n) :: rest) table).1 =
      match (load libraries pending n table).1 with
      | .error e => .error e
      | .ok c =>
          match role.refuse? owner c with
          | some e => .error e
          | none =>
              (loadLinks libraries pending owner rest (load libraries pending n table).2).1.map
                (c :: ·) := by
  rw [loadLinks]
  rcases load libraries pending n table with ⟨_ | c, table⟩
  · rfl
  · dsimp only
    cases role.refuse? owner c with
    | some e => rfl
    | none =>
      dsimp only
      rcases loadLinks libraries pending owner rest table with ⟨_ | cs, table⟩ <;> rfl

theorem Links.eq {other : ClassTable} {owner : ClassName} {links : List Link} {cs ks : List Class}
    (h : Links table owner links cs) (h' : Links other owner links ks)
    (hsame : ∀ c ∈ cs, ∀ m k, table.get? m = some c → other.get? m = some k → c = k) : cs = ks := by
  induction h generalizing ks with
  | nil =>
    cases h'
    rfl
  | @cons l c links cs hl _ ih =>
    cases h' with
    | @cons _ k _ ks hl' hrest =>
      obtain ⟨hc, hcs⟩ := List.forall_mem_cons.1 hsame
      rw [hc l.2 k hl.1 hl'.1, ih hrest hcs]

theorem mem_linked_build (hd : define libraries n = .ok d) {cs : List Class}
    (hl : Links table n d.links cs) (hc : c ∈ cs) : c ∈ (d.build cs).linked := by
  have headed {above : List Class} (hc : c ∈ above) : c ∈ above.head?.toList ++ above.tail := by
    cases above with
    | nil => cases hc
    | cons k ks => simpa using hc
  cases defines hd with
  | arrayOf =>
    obtain _ | ⟨-, _ | ⟨-, _ | ⟨-, _ | ⟨-, _ | _⟩⟩⟩⟩ := hl
    simp only [List.mem_cons, List.not_mem_nil, or_false] at hc
    rcases hc with rfl | hc
    · exact Class.mem_linked_of_component rfl
    · refine Class.mem_linked_of_above ?_
      simpa [Class.above, ClassTable.array, Class.start] using hc
  | baseArray => exact Class.mem_linked_of_above (headed hc)
  | primitive =>
    cases hl
    cases hc
  | regular _ _ hk =>
    cases hk with
    | extending => exact Class.mem_linked_of_above (headed hc)
    | root => exact Class.mem_linked_of_above hc

theorem Closed.agree {other : ClassTable} {n : ClassName} {c k : Class} (h : Closed libraries table)
    (h' : Closed libraries other) (hc : table.get? n = some c) (hk : other.get? n = some k) :
    c = k := by
  obtain ⟨d, cs, hd, hbuild, hl⟩ := h n c hc
  obtain ⟨d', ks, hd', rfl, hl'⟩ := h' n k hk
  cases hd.symm.trans hd'
  subst hbuild
  rw [hl.eq hl' fun c hc m k hm hk => ?_]
  have := Class.sizeOf_lt_of_mem_linked (mem_linked_build hd hl hc)
  exact h.agree h' hm hk
termination_by sizeOf c

theorem get?_eq_none_iff : table.get? n = none ↔ n ∉ table.map (·.1) := by
  simp only [Entries.get?, Option.map_eq_none_iff, List.find?_eq_none, List.mem_map]
  grind

structure Settled (libraries : List Library) (pending : List ClassName) (table : ClassTable) :
    Prop where
  closed : Closed libraries table
  single : (table.map (·.1)).Nodup
  apart : ∀ m ∈ pending, table.get? m = none

namespace Settled

theorem enter (h : Settled libraries pending table) (hn : table.get? n = none) :
    Settled libraries (n :: pending) table :=
  ⟨h.closed, h.single, List.forall_mem_cons.2 ⟨hn, h.apart⟩⟩

theorem leave (h : Settled libraries (n :: pending) table) : Settled libraries pending table :=
  ⟨h.closed, h.single, (List.forall_mem_cons.1 h.apart).2⟩

theorem register_eq (h : Settled libraries (n :: pending) table) (hd : define libraries n = .ok d)
    (cs : List Class) :
    register (d.build cs) table = (d.build cs, table ++ [(n, d.build cs)]) := by
  rw [register, name_build hd cs, (List.forall_mem_cons.1 h.apart).1]

theorem register (h : Settled libraries (n :: pending) table) (hp : n ∉ pending)
    (hd : define libraries n = .ok d) {cs : List Class} (hl : Links table n d.links cs) :
    Settled libraries pending (ClassTable.register (d.build cs) table).2 := by
  obtain ⟨hn, hapart⟩ := List.forall_mem_cons.1 h.apart
  refine ⟨(loaded_register hd hl).1.closed h.closed, ?_, fun m hm => ?_⟩
  · rw [h.register_eq hd, List.map_append]
    refine List.nodup_append.2 ⟨h.single, List.pairwise_singleton _ n, ?_⟩
    rintro a ha b hb rfl
    cases List.mem_singleton.1 hb
    exact get?_eq_none_iff.1 hn ha
  · have hne : n ≠ m := fun he => hp (he ▸ hm)
    rw [h.register_eq hd, get?_append, hapart m hm, if_neg hne]
    rfl

theorem loadLinks (owner : ClassName) (links : List Link)
    (heach : ∀ l ∈ links, ∀ table, Settled libraries pending table →
      Settled libraries pending (load libraries pending l.2 table).2)
    (h : Settled libraries pending table) :
    Settled libraries pending (ClassTable.loadLinks libraries pending owner links table).2 := by
  induction links generalizing table with
  | nil =>
    rw [ClassTable.loadLinks]
    exact h
  | cons l rest ih =>
    obtain ⟨role, m⟩ := l
    obtain ⟨hm, hrest⟩ := List.forall_mem_cons.1 heach
    have hload := hm table h
    rw [ClassTable.loadLinks]
    rcases hr : ClassTable.load libraries pending m table with ⟨_ | c, table'⟩
    · rwa [hr] at hload
    · rw [hr] at hload
      dsimp only
      cases role.refuse? owner c with
      | some e => exact hload
      | none =>
        have hlinks := ih hrest hload
        rcases hl : ClassTable.loadLinks libraries pending owner rest table' with ⟨_ | cs, table''⟩
        all_goals rwa [hl] at hlinks

protected theorem load (pending : List ClassName) (n : ClassName) {table : ClassTable}
    (h : Settled libraries pending table) :
    Settled libraries pending (load libraries pending n table).2 := by
  refine load_induction libraries (P := fun pending n => ∀ table, Settled libraries pending table →
    Settled libraries pending (ClassTable.load libraries pending n table).2)
    (fun pending n ih table h => ?_) pending n table h
  cases hn : table.get? n with
  | some c =>
    rw [ClassTable.load, hn]
    exact h
  | none =>
    by_cases hp : n ∈ pending
    · rw [ClassTable.load, hn]
      simpa only [dif_pos hp] using h
    · cases hd : define libraries n with
      | error e =>
        rw [load_of_error hn hp hd]
        exact h
      | ok d =>
        have hlinks := loadLinks n d.links (ih d hp hd) (h.enter hn)
        have hloaded := ((load_loaded libraries).2 (n :: pending) n d.links table).2
        rw [load_of_define hn hp hd]
        rcases hr : ClassTable.loadLinks libraries (n :: pending) n d.links table with ⟨_ | cs, t⟩
        · rw [hr] at hlinks
          exact hlinks.leave
        · rw [hr] at hlinks hloaded
          exact hlinks.register hp hd (hloaded cs rfl)

theorem fst_load (h : Settled libraries pending table) (hn : table.get? n = none) (hp : n ∉ pending)
    (hd : define libraries n = .ok d) :
    (ClassTable.load libraries pending n table).1 =
      (ClassTable.loadLinks libraries (n :: pending) n d.links table).1.map d.build := by
  have hlinks := loadLinks n d.links (fun l _ _ h => Settled.load (n :: pending) l.2 h) (h.enter hn)
  rw [load_of_define hn hp hd]
  rcases hr : ClassTable.loadLinks libraries (n :: pending) n d.links table with ⟨_ | cs, t⟩
  · rfl
  · rw [hr] at hlinks
    simp only [hlinks.register_eq hd]
    rfl

end Settled

theorem loadLinks_of_links {known : ClassTable} {owner : ClassName} {links : List Link}
    {cs : List Class} (hl : Links known owner links cs)
    (heach : ∀ c ∈ cs, ∀ m table, known.get? m = some c → Settled libraries pending table →
      (load libraries pending m table).1 = .ok c)
    (h : Settled libraries pending table) :
    (loadLinks libraries pending owner links table).1 = .ok cs := by
  induction hl generalizing table with
  | nil => rw [loadLinks]
  | @cons l c links cs hk _ ih =>
    obtain ⟨hc, hcs⟩ := List.forall_mem_cons.1 heach
    rw [fst_loadLinks_cons, hc l.2 table hk.1 h]
    dsimp only
    rw [hk.2]
    dsimp only
    rw [ih hcs (h.load pending l.2)]
    rfl

theorem load_registered {known table : ClassTable} {pending : List ClassName} {n : ClassName} {c : Class}
    (hknown : Closed libraries known) (hc : known.get? n = some c)
    (hp : ∀ m ∈ pending, ∀ k, known.get? m = some k → sizeOf c < sizeOf k)
    (h : Settled libraries pending table) : (load libraries pending n table).1 = .ok c := by
  cases hn : table.get? n with
  | some k =>
    rw [load, hn, hknown.agree h.closed hc hn]
  | none =>
    have hfree : n ∉ pending := fun hmem => Nat.lt_irrefl _ (hp n hmem c hc)
    obtain ⟨d, cs, hd, rfl, hl⟩ := hknown n c hc
    rw [h.fst_load hn hfree hd, loadLinks_of_links hl ?_ (h.enter hn)]
    · rfl
    · intro k hk m table hm ht
      have hlt := Class.sizeOf_lt_of_mem_linked (mem_linked_build hd hl hk)
      refine load_registered hknown hm (List.forall_mem_cons.2 ⟨fun k' hk' => ?_, ?_⟩) ht
      · cases hc.symm.trans hk'
        exact hlt
      · exact fun m hm k' hk' => Nat.lt_trans hlt (hp m hm k' hk')
termination_by sizeOf c

theorem loadLinks_eq {owner : ClassName} {links : List Link}
    (heach : ∀ l ∈ links, ∀ t1 t2, Settled libraries pending t1 → Settled libraries pending t2 →
      (load libraries pending l.2 t1).1 = (load libraries pending l.2 t2).1)
    (h : Settled libraries pending table) (h' : Settled libraries pending table') :
    (loadLinks libraries pending owner links table).1 =
      (loadLinks libraries pending owner links table').1 := by
  induction links generalizing table table' with
  | nil => rw [loadLinks, loadLinks]
  | cons l rest ih =>
    obtain ⟨role, m⟩ := l
    obtain ⟨hm, hrest⟩ := List.forall_mem_cons.1 heach
    rw [fst_loadLinks_cons, fst_loadLinks_cons, hm table table' h h',
      ih hrest (h.load pending m) (h'.load pending m)]

theorem load_eq (pending : List ClassName) (n : ClassName)
    (h : Settled libraries pending table) (h' : Settled libraries pending table') :
    (load libraries pending n table).1 = (load libraries pending n table').1 := by
  refine load_induction libraries (P := fun pending n => ∀ t1 t2, Settled libraries pending t1 →
    Settled libraries pending t2 →
      (load libraries pending n t1).1 = (load libraries pending n t2).1)
    (fun pending n ih t1 t2 h1 h2 => ?_) pending n table table' h h'
  have free {t : ClassTable} (ht : Settled libraries pending t) {c : Class} :
      ∀ m ∈ pending, ∀ k, t.get? m = some k → sizeOf c < sizeOf k :=
    fun m hm k hk => nomatch (ht.apart m hm).symm.trans hk
  cases hn1 : t1.get? n with
  | some c => rw [load_registered h1.closed hn1 (free h1) h2, load, hn1]
  | none =>
    cases hn2 : t2.get? n with
    | some c => rw [load_registered h2.closed hn2 (free h2) h1, load, hn2]
    | none =>
      by_cases hp : n ∈ pending
      · rw [load, hn1, load, hn2]
        simp only [dif_pos hp]
      · cases hd : define libraries n with
        | error e => rw [load_of_error hn1 hp hd, load_of_error hn2 hp hd]
        | ok d =>
          rw [h1.fst_load hn1 hp hd, h2.fst_load hn2 hp hd,
            loadLinks_eq (ih d hp hd) (h1.enter hn1) (h2.enter hn2)]

def after (libraries : List Library) (names : List ClassName) : ClassTable :=
  names.foldl (fun table n => (load libraries [] n table).2) []

@[simp] theorem after_concat (libraries : List Library) (names : List ClassName) (n : ClassName) :
    after libraries (names ++ [n]) = (load libraries [] n (after libraries names)).2 := by
  rw [after, List.foldl_append]
  rfl

theorem settled_after (libraries : List Library) (names : List ClassName) :
    Settled libraries [] (after libraries names) := by
  induction names using List.reverseRecOn with
  | nil => exact ⟨closed_nil libraries, .nil, nofun⟩
  | append_singleton names n ih =>
    rw [after_concat]
    exact ih.load [] n

theorem extends_after (libraries : List Library) (earlier later : List ClassName) :
    Extends (after libraries earlier) (after libraries (earlier ++ later)) := by
  induction later using List.reverseRecOn with
  | nil =>
    rw [List.append_nil]
    exact .refl _
  | append_singleton later n ih =>
    rw [← List.append_assoc, after_concat]
    exact ih.trans (load_extends libraries [] n _).grows

theorem get?_after_of_load {earlier : List ClassName}
    (h : (load libraries [] n (after libraries earlier)).1 = .ok c) (later : List ClassName) :
    (after libraries (earlier ++ n :: later)).get? n = some c := by
  have hget : (after libraries (earlier ++ [n])).get? n = some c := by
    rw [after_concat]
    exact get?_of_load (Prod.ext h rfl)
  have hext := extends_after libraries (earlier ++ [n]) later
  rw [List.append_assoc] at hext
  exact hext n c hget

def loads (libraries : List Library) (n : ClassName) (k : Nat) : Bool :=
  height libraries [] n < k &&
    ((fun self => loadBy self libraries)^[k] (fun _ n table => (.error (.classNotFound n), table))
      [] n []).1.isOk

theorem exists_get?_after {k : Nat} {names : List ClassName} (h : loads libraries n k = true)
    (hn : n ∈ names) : ∃ c, (after libraries names).get? n = some c := by
  simp only [loads, Bool.and_eq_true, decide_eq_true_eq] at h
  obtain ⟨hk, hok⟩ := h
  rw [iterate_loadBy _ hk] at hok
  obtain ⟨earlier, later, rfl⟩ := List.append_of_mem hn
  rw [show [] = after libraries [] from rfl,
    load_eq [] n (settled_after libraries []) (settled_after libraries earlier)] at hok
  cases hr : (load libraries [] n (after libraries earlier)).1 with
  | error e =>
    rw [hr] at hok
    cases hok
  | ok c => exact ⟨c, get?_after_of_load hr later⟩

theorem load_of_get? (hc : table.get? n = some c) : load libraries pending n table = (.ok c, table) := by
  rw [load, hc]

theorem get?_after_of_error {earlier other : List ClassName} {e : LinkError}
    (h : (load libraries [] n (after libraries earlier)).1 = .error e) :
    (after libraries other).get? n = none := by
  cases hc : (after libraries other).get? n with
  | none => rfl
  | some c =>
    have hsame := load_eq [] n (settled_after libraries earlier) (settled_after libraries other)
    rw [h, load_of_get? hc] at hsame
    cases hsame

theorem loading_independent_of_history (libraries : List Library) (earlier other : List ClassName)
    (n : ClassName) :
    (load libraries [] n (after libraries earlier)).1 =
      (load libraries [] n (after libraries other)).1 ∧
    (∀ e, (load libraries [] n (after libraries earlier)).1 = .error e →
      (after libraries other).get? n = none) ∧
    ((after libraries earlier).map (·.1)).Nodup ∧
    (∀ c, (load libraries [] n (after libraries earlier)).1 = .ok c → ∀ later,
      load libraries [] n (after libraries (earlier ++ n :: later)) =
        (.ok c, after libraries (earlier ++ n :: later))) ∧
    ∀ c, (after libraries earlier).get? n = some c →
      c.name = n ∧ ∀ k ∈ c.linked, (after libraries earlier).get? k.name = some k := by
  have h := settled_after libraries earlier
  refine ⟨load_eq [] n h (settled_after libraries other), fun e he => get?_after_of_error he,
    h.single, fun c hc later => load_of_get? (get?_after_of_load hc later), fun c hc => ?_⟩
  exact ⟨h.closed.name hc, fun k hk => h.closed.linked hc hk⟩

end BytecodeMachine.ClassTable

namespace BytecodeMachine.Resolving

open ClassTable

variable {libraries : List Library} {table table' : ClassTable} {context : Option Class} {c : Class}

theorem checkClass_of_sees (h : ∀ k, context = some k → k.seesClass c.innermost = true) :
    checkClass c context table = (.ok (), table) := by
  cases context with
  | none => rfl
  | some k =>
    simp only [checkClass, h k rfl, if_true]
    rfl

theorem checkMember_of_sees {v : Visibility} {member : String}
    (h : ∀ k, context = some k → k.seesMember c v = true) :
    checkMember c v member context table = (.ok (), table) := by
  cases context with
  | none => rfl
  | some k =>
    simp only [checkMember, h k rfl, if_true]
    rfl

theorem resolveClass_of_load {n : ClassName} (hc : load libraries [] n table = (.ok c, table'))
    (hsees : ∀ k, context = some k → k.seesClass c.innermost = true) :
    resolveClass libraries n context table = (.ok c, table') := by
  rw [resolveClass, bind_apply, show loadClass libraries n table = _ from hc]
  dsimp only
  rw [bind_apply, checkClass_of_sees hsees]
  rfl

theorem resolveMethod_of_load {ref : MethodRef} {m : Method}
    (hc : load libraries [] ref.klass table = (.ok c, table'))
    (hm : c.lookupMethod? ref.name ref.type = some m) (ho : m.owner = ref.klass)
    (hsees : ∀ k, context = some k → k.seesClass c.innermost = true ∧
      k.seesMember c m.access.visibility = true) :
    resolveMethod libraries ref context table = (.ok (c, m), table') := by
  have hget : table'.get? m.owner = some c := ho ▸ get?_of_load hc
  rw [resolveMethod, bind_apply, resolveClass_of_load hc fun k hk => (hsees k hk).1]
  simp only [hm]
  rw [bind_apply, show loadClass libraries m.owner table' = (.ok c, table') from load_of_get? hget]
  dsimp only
  rw [bind_apply, checkMember_of_sees fun k hk => (hsees k hk).2]
  rfl

theorem resolveField_of_lookup {ref : FieldRef} {g : Field} {d : Class}
    (hc : resolveClass libraries ref.klass context table = (.ok c, table'))
    (hg : c.lookupField? ref.name = some g) (ht : g.type = ref.type)
    (hd : table'.get? g.owner = some d) :
    resolveField libraries ref context table =
      (do checkMember d g.access.visibility g.text context; pure (d, g) : Resolving _) table' := by
  rw [resolveField, bind_apply, hc]
  simp only [hg, ht, ne_eq, not_true_eq_false, if_false]
  rw [bind_apply, show loadClass libraries g.owner table' = (.ok d, table') from load_of_get? hd]

theorem resolveField_of_visible {ref : FieldRef} {g : Field} {d : Class}
    (hc : resolveClass libraries ref.klass context table = (.ok c, table'))
    (hg : c.lookupField? ref.name = some g) (ht : g.type = ref.type)
    (hd : table'.get? g.owner = some d)
    (hv : ∀ k, context = some k → k.seesMember d g.access.visibility = true) :
    resolveField libraries ref context table = (.ok (d, g), table') := by
  rw [resolveField_of_lookup hc hg ht hd, bind_apply, checkMember_of_sees hv]
  rfl

theorem resolveField_of_load {ref : FieldRef} {g : Field}
    (hc : load libraries [] ref.klass table = (.ok c, table'))
    (hg : c.lookupField? ref.name = some g) (ht : g.type = ref.type) (ho : g.owner = ref.klass)
    (hsees : ∀ k, context = some k → k.seesClass c.innermost = true ∧
      k.seesMember c g.access.visibility = true) :
    resolveField libraries ref context table = (.ok (c, g), table') :=
  resolveField_of_visible (resolveClass_of_load hc fun k hk => (hsees k hk).1) hg ht
    (ho ▸ get?_of_load hc) fun k hk => (hsees k hk).2

end BytecodeMachine.Resolving
