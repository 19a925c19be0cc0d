import BytecodeMachine.Proofs.Loading.Records
import BytecodeMachine.Proofs.Typing.Hierarchy

namespace BytecodeMachine

namespace Class

variable {P : Class → Prop} {c d s : Class} {n : ClassName}

theorem subset_enqueue (cs stack : List Class) (seen : List ClassName) :
    stack ⊆ (enqueue cs (stack, seen)).1 ∧ seen ⊆ (enqueue cs (stack, seen)).2 ∧
      ∀ c ∈ cs, c.name ∈ (enqueue cs (stack, seen)).2 := by
  induction cs generalizing stack seen with
  | nil => exact ⟨List.Subset.refl _, List.Subset.refl _, nofun⟩
  | cons c cs ih =>
    simp only [enqueue]
    split
    · rename_i hc
      obtain ⟨hstack, hseen, hcs⟩ := ih stack seen
      exact ⟨hstack, hseen, List.forall_mem_cons.2 ⟨hseen hc, hcs⟩⟩
    · obtain ⟨hstack, hseen, hcs⟩ := ih (c :: stack) (c.name :: seen)
      obtain ⟨-, hstack⟩ := List.cons_subset.1 hstack
      obtain ⟨hc, hseen⟩ := List.cons_subset.1 hseen
      exact ⟨hstack, hseen, List.forall_mem_cons.2 ⟨hc, hcs⟩⟩

theorem exists_of_mem_enqueue_seen {cs stack : List Class} {seen : List ClassName}
    (h : n ∈ (enqueue cs (stack, seen)).2) :
    n ∈ seen ∨ ∃ c ∈ cs, c ∈ (enqueue cs (stack, seen)).1 ∧ c.name = n := by
  induction cs generalizing stack seen with
  | nil => exact .inl h
  | cons c cs ih =>
    simp only [enqueue] at h ⊢
    split at h
    · rename_i hc
      rw [if_pos hc]
      rcases ih h with h | ⟨d, hd, hmem⟩
      · exact .inl h
      · exact .inr ⟨d, List.mem_cons_of_mem c hd, hmem⟩
    · rename_i hc
      rw [if_neg hc]
      rcases ih h with h | ⟨d, hd, hmem⟩
      · rcases List.mem_cons.1 h with rfl | h
        · have hstack := (subset_enqueue cs (c :: stack) (c.name :: seen)).1
          exact .inr ⟨c, List.mem_cons_self, hstack List.mem_cons_self, rfl⟩
        · exact .inl h
      · exact .inr ⟨d, List.mem_cons_of_mem c hd, hmem⟩

theorem above_subset (c : Class) (interfaces : Bool) : c.above interfaces ⊆ c.above true := by
  cases interfaces with
  | true => exact List.Subset.refl _
  | false => simp [above]

section Visit

variable (hP : ∀ c, P c → ∀ s ∈ c.above true, P s)
  (hname : ∀ c d, P c → P d → c.name = d.name → c = d)

include hP hname

theorem exists_names_of_reaches {interfaces : Bool} {stack : List Class} {seen : List ClassName}
    (hstack : ∀ c ∈ stack, P c)
    (hseen : ∀ c, P c → c.name ∈ seen →
      c ∈ stack ∨ c.name ≠ n ∧ ∀ s ∈ c.above interfaces, s.name ∈ seen)
    (h : reaches n interfaces stack seen = false) :
    ∃ names, seen ⊆ names ∧ ∀ c, P c → c.name ∈ names →
      c.name ≠ n ∧ ∀ s ∈ c.above interfaces, s.name ∈ names := by
  induction stack, seen using reaches.induct n interfaces with
  | case1 seen =>
    exact ⟨seen, List.Subset.refl _, fun c hc hmem => (hseen c hc hmem).resolve_left List.not_mem_nil⟩
  | case2 seen c rest hc =>
    rw [reaches, if_pos hc] at h
    cases h
  | case3 seen c rest hc ih =>
    rw [reaches, if_neg hc] at h
    obtain ⟨hc', hrest⟩ := List.forall_mem_cons.1 hstack
    obtain ⟨hkeep, hgrow, hnew⟩ := subset_enqueue (c.above interfaces) rest seen
    have habove (s : Class) (hs : s ∈ c.above interfaces) : P s :=
      hP c hc' s (above_subset c interfaces hs)
    have hvisited (d : Class) (hd : P d)
        (hmem : d.name ∈ (enqueue (c.above interfaces) (rest, seen)).2) :
        d ∈ (enqueue (c.above interfaces) (rest, seen)).1 ∨
          d.name ≠ n ∧ ∀ s ∈ d.above interfaces,
            s.name ∈ (enqueue (c.above interfaces) (rest, seen)).2 := by
      rcases exists_of_mem_enqueue_seen hmem with hold | ⟨k, hk, hput, hkd⟩
      · rcases hseen d hd hold with hd' | ⟨hn, hup⟩
        · rcases List.mem_cons.1 hd' with rfl | hd'
          · exact .inr ⟨hc, hnew⟩
          · exact .inl (hkeep hd')
        · exact .inr ⟨hn, fun s hs => hgrow (hup s hs)⟩
      · exact .inl (hname k d (habove k hk) hd hkd ▸ hput)
    obtain ⟨names, hsub, hnames⟩ :=
      ih (fun d hd => (mem_enqueue hd).elim (habove d) (hrest d)) hvisited h
    exact ⟨names, List.Subset.trans hgrow hsub, hnames⟩

theorem reaches_of_mem {interfaces : Bool} (hc : P c)
    (hd : ∀ Q : Class → Prop, Q c → (∀ k, Q k → ∀ s ∈ k.above interfaces, Q s) → Q d) :
    reaches d.name interfaces [c] [c.name] = true := by
  by_contra hn
  have hstart (k : Class) (hk : P k) (hmem : k.name ∈ [c.name]) : k ∈ [c] :=
    List.mem_singleton.2 (hname k c hk hc (List.mem_singleton.1 hmem))
  obtain ⟨names, hsub, hnames⟩ := exists_names_of_reaches hP hname
    (List.forall_mem_singleton.2 hc) (fun k hk hmem => .inl (hstart k hk hmem)) (by simpa using hn)
  obtain ⟨hd', hmem⟩ := hd (fun k => P k ∧ k.name ∈ names)
    ⟨hc, hsub List.mem_cons_self⟩ fun k hk s hs =>
      ⟨hP k hk.1 s (above_subset k interfaces hs), (hnames k hk.1 hk.2).2 s hs⟩
  exact (hnames d hd' hmem).1 rfl

theorem reaches_of_mem_chain (interfaces : Bool) (hc : P c) (hd : d ∈ c.chain) :
    reaches d.name interfaces [c] [c.name] = true := by
  refine reaches_of_mem hP hname hc fun Q hQc hQ => forall_chain (fun k hk s hs => ?_) c hQc d hd
  exact hQ k hk s (mem_above_of_superclass hs interfaces)

theorem reaches_of_mem_interfaceOrder (hc : P c) (hd : d ∈ c.interfaceOrder) :
    reaches d.name true [c] [c.name] = true :=
  reaches_of_mem hP hname hc fun _ hQc hQ => forall_interfaceOrder hQ c hQc d hd

end Visit

theorem mem_of_lookupMethod? {t : MethodType} {n : MemberName} {m : Method}
    (h : c.lookupMethod? n t = some m) : m.name = n ∧ m.type = t ∧
      ∃ d, (d ∈ c.chain ∨ d ∈ c.interfaceOrder) ∧ m ∈ d.methods := by
  rw [lookupMethod?_eq] at h
  obtain ⟨d, hd, hf⟩ := List.exists_of_findSome?_eq_some h
  have hm := List.find?_some hf
  simp only [Bool.and_eq_true, decide_eq_true_eq] at hm
  exact ⟨hm.1, hm.2, d, List.mem_append.1 hd, List.mem_of_find?_eq_some hf⟩

end Class

namespace ClassTable

variable {libraries : List Library} {table : ClassTable} {n : ClassName} {c d : Class} {m : Method}

theorem Closed.methods (h : Closed libraries table) (hc : table.get? n = some c) :
    (c.isArray = true → c.methods = []) ∧ ∀ m ∈ c.methods, m.owner = n := by
  obtain ⟨d, cs, hd, rfl, -⟩ := h n c hc
  have placed (ds : List MethodData) : ∀ m ∈ placeMethods n ds, m.owner = n := by
    intro m hm
    obtain ⟨d, -, rfl⟩ := List.mem_map.1 hm
    rfl
  cases defines hd with
  | regular _ _ hk =>
    obtain ⟨superclass, interfaces, hb⟩ := hk.build cs
    rw [hb]
    exact ⟨fun harray => absurd harray Bool.false_ne_true, placed _⟩
  | _ => exact ⟨fun _ => rfl, fun _ hm => absurd hm List.not_mem_nil⟩

theorem Closed.reaches (h : Closed libraries table) (hc : table.get? c.name = some c)
    (interfaces : Bool) (hd : d ∈ c.chain ∨ d ∈ c.interfaceOrder ∧ interfaces = true) :
    Class.reaches d.name interfaces [c] [c.name] = true := by
  have hP (k : Class) (hk : table.get? k.name = some k) (s : Class) (hs : s ∈ k.above true) :
      table.get? s.name = some s := h.above hk hs
  have hname (k s : Class) (hk : table.get? k.name = some k) (hs : table.get? s.name = some s)
      (he : k.name = s.name) : k = s := Option.some.inj (hk.symm.trans (he ▸ hs))
  rcases hd with hd | ⟨hd, rfl⟩
  · exact Class.reaches_of_mem_chain hP hname interfaces hc hd
  · exact Class.reaches_of_mem_interfaceOrder hP hname hc hd

end ClassTable

namespace CoreLibrary

open ClassTable

variable {rest : List Library} {table : ClassTable} {n : ClassName} {c d s : Class}

theorem array_interfaces : ∀ c ∈ classes, c.name = .cloneable ∨ c.name = .serializable →
    c.access.isInterface = true := by
  decide +kernel

theorem above_array_supertypes : ∀ c ∈ classes, Class.isArraySupertype c.name = true →
    ∀ n ∈ c.superclass.toList ++ c.interfaces, Class.isArraySupertype n = true := by
  decide +kernel

variable (h : Closed (library :: rest) table) (hc : table.get? n = some c)

include h hc

theorem isInterface_of_mem_interfaces (hd : d ∈ c.interfaces) : d.isInterface = true := by
  have core {i : ClassName} {e : Class} (hi : i = .cloneable ∨ i = .serializable)
      (he : table.get? i = some e) : e.isInterface = true := by
    have hhas : Has i := by
      rcases hi with rfl | rfl <;> decide
    obtain ⟨data, hmem, rfl, superclass, interfaces, rfl⟩ := regular_of_has h he hhas
    exact array_interfaces data hmem hi
  cases ha : c.isArray with
  | false => exact h.isInterface_of_mem_interfaces hc ha hd
  | true =>
    cases h.record hc with
    | array _ _ _ _ hcl hs =>
      rcases List.mem_cons.1 hd with rfl | hd
      · exact core (.inl rfl) hcl
      · cases List.mem_singleton.1 hd
        exact core (.inr rfl) hs
    | primitive => cases hd
    | regular => cases ha

theorem isArraySupertype_above_array (ha : c.isArray = true) (hs : s ∈ c.above true) :
    Class.isArraySupertype s.name = true := by
  have hmem := List.mem_map_of_mem (f := (·.name)) hs
  rw [h.names_above hc, declaredAbove_array ((h.isArray_eq hc).symm.trans ha)] at hmem
  simpa [Class.isArraySupertype, or_assoc] using hmem

theorem isArraySupertype_above (hn : Class.isArraySupertype n = true) (hs : s ∈ c.above true) :
    Class.isArraySupertype s.name = true := by
  obtain ⟨d, hd, rfl, hmem⟩ := exists_of_mem_above h hc (has_of_isArraySupertype hn) hs
  exact above_array_supertypes d hd hn s.name hmem

-- Above an array there are the classes above every array and no others.
omit hc in
theorem array_supertype_of_mem (hc : table.get? c.name = some c) (ha : c.isArray = true)
    (hd : d ∈ c.chain ∨ d ∈ c.interfaceOrder) :
    table.get? d.name = some d ∧ (d = c ∨ Class.isArraySupertype d.name = true) := by
  let P (e : Class) : Prop :=
    table.get? e.name = some e ∧ (e = c ∨ Class.isArraySupertype e.name = true)
  have hP (e : Class) (he : P e) (s : Class) (hs : s ∈ e.above true) : P s := by
    refine ⟨h.above he.1 hs, .inr ?_⟩
    rcases he.2 with rfl | hsuper
    · exact isArraySupertype_above_array h he.1 ha hs
    · exact isArraySupertype_above h he.1 hsuper hs
  rcases hd with hd | hd
  · exact Class.forall_chain_of_above hP c ⟨hc, .inl rfl⟩ d hd
  · exact Class.forall_interfaceOrder hP c ⟨hc, .inl rfl⟩ d hd

omit hc in
theorem isAssignable_of_lookupMethod? {i : MemberName} {t : MethodType} {m : Method}
    (hc : table.get? c.name = some c) (hm : c.lookupMethod? i t = some m)
    (hd : table.get? m.owner = some d) : c.isAssignable d = true := by
  obtain ⟨-, -, k, hk, hmem⟩ := Class.mem_of_lookupMethod? hm
  have hP (k : Class) (hk : table.get? k.name = some k) (s : Class) (hs : s ∈ k.above true) :
      table.get? s.name = some s := h.above hk hs
  have hknown : table.get? k.name = some k := by
    rcases hk with hk | hk
    · exact (h.chain hc k hk).1
    · exact Class.forall_interfaceOrder hP c hc k hk
  have hkd : k = d := by
    rw [(h.methods hknown).2 m hmem] at hd
    exact Option.some.inj (hknown.symm.trans hd)
  subst hkd
  cases ha : c.isArray with
  | false =>
    rw [Class.isAssignable_eq_reaches ha]
    refine h.reaches hc _ (hk.imp_right fun hk => ⟨hk, ?_⟩)
    obtain ⟨e, he, hke⟩ := Class.exists_of_mem_interfaceOrder hP c hc k hk
    exact isInterface_of_mem_interfaces h he hke
  | true =>
    rcases (array_supertype_of_mem h hc ha hk).2 with rfl | hsuper
    · rw [(h.methods hc).1 ha] at hmem
      cases hmem
    · obtain ⟨data, -, -, superclass, interfaces, hreg⟩ :=
        regular_of_has h hknown (has_of_isArraySupertype hsuper)
      have hshape : k.isArray = false := by
        rw [hreg]
        rfl
      exact (Class.isAssignable_iff_isArraySupertype ha hshape).2 hsuper

end CoreLibrary

end BytecodeMachine
