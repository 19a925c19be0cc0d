import BytecodeMachine.Proofs.Construction

namespace BytecodeMachine

open ClassTable

def Instruction.isBasic : Instruction → Bool
  | .load _ _ | .putField _ | .returnVoid => true
  | .invoke .special m => m.name = .constructor && (CoreLibrary.library.class? m.klass).isSome
  | _ => false

def Code.isBasic (c : Code) : Bool := c.handlers.isEmpty && c.instructions.toList.all (·.isBasic)

namespace Class

variable {P : Class → Prop}

theorem forall_chain (h : ∀ c, P c → ∀ s, c.superclass = some s → P s) (c : Class) (hc : P c) :
    ∀ d ∈ c.chain, P d := by
  match c with
  | ⟨n, none, i, k, a, src, sh, f, m, l⟩ =>
      intro d hd
      rw [List.mem_singleton.1 hd]
      exact hc
  | ⟨n, some s, i, k, a, src, sh, f, m, l⟩ =>
      intro d hd
      rcases List.mem_cons.1 hd with rfl | hd
      · exact hc
      · exact forall_chain h s (h _ hc s rfl) d hd

theorem forall_chain_of_above (h : ∀ c, P c → ∀ s ∈ c.above true, P s) (c : Class) (hc : P c) :
    ∀ d ∈ c.chain, P d :=
  forall_chain (fun c hc s hs => h c hc s (mem_above_of_superclass hs true)) c hc

mutual

theorem exists_of_mem_interfaceOrder (h : ∀ c, P c → ∀ s ∈ c.above true, P s) (c : Class)
    (hc : P c) : ∀ d ∈ c.interfaceOrder, ∃ k, P k ∧ d ∈ k.interfaces := by
  match c with
  | ⟨n, s, i, k, a, src, sh, f, m, l⟩ =>
      intro d hd
      rcases List.mem_append.1 hd with hd | hd
      · exact exists_of_mem_interfaceOrder_ofList h ⟨_, hc, List.Subset.refl _⟩ d hd
      · refine exists_of_mem_interfaceOrder_ofOption h s (fun s hs => h _ hc s ?_) d hd
        exact mem_above_of_superclass hs true

theorem exists_of_mem_interfaceOrder_ofOption (h : ∀ c, P c → ∀ s ∈ c.above true, P s)
    (s : Option Class) (hs : ∀ c, s = some c → P c) :
    ∀ d ∈ interfaceOrder.ofOption s, ∃ k, P k ∧ d ∈ k.interfaces := by
  match s with
  | none => exact fun d hd => nomatch hd
  | some c => exact exists_of_mem_interfaceOrder h c (hs c rfl)

theorem exists_of_mem_interfaceOrder_ofList (h : ∀ c, P c → ∀ s ∈ c.above true, P s)
    {cs : List Class} (hcs : ∃ k, P k ∧ cs ⊆ k.interfaces) :
    ∀ d ∈ interfaceOrder.ofList cs, ∃ k, P k ∧ d ∈ k.interfaces := by
  match cs with
  | [] => exact fun d hd => nomatch hd
  | c :: cs =>
      obtain ⟨k, hk, hsub⟩ := hcs
      obtain ⟨hc, hcs⟩ := List.cons_subset.1 hsub
      intro d hd
      rcases List.mem_cons.1 hd with rfl | hd
      · exact ⟨k, hk, hc⟩
      · rcases List.mem_append.1 hd with hd | hd
        · exact exists_of_mem_interfaceOrder h c (h k hk c (List.mem_append_right _ hc)) d hd
        · exact exists_of_mem_interfaceOrder_ofList h ⟨k, hk, hcs⟩ d hd

end

theorem forall_interfaceOrder (h : ∀ c, P c → ∀ s ∈ c.above true, P s) (c : Class) (hc : P c) :
    ∀ d ∈ c.interfaceOrder, P d := by
  intro d hd
  obtain ⟨k, hk, hd⟩ := exists_of_mem_interfaceOrder h c hc d hd
  exact h k hk d (List.mem_append_right _ hd)

theorem exists_of_lookupMethod? {c : Class} {n : MemberName} {t : MethodType} {m : Method}
    (hm : c.lookupMethod? n t = some m) (h : ∀ c, P c → ∀ s ∈ c.above true, P s) (hc : P c) :
    ∃ d, P d ∧ m ∈ d.methods ∧ m.name = n := by
  rw [lookupMethod?_eq] at hm
  obtain ⟨d, hd, hf⟩ := List.exists_of_findSome?_eq_some hm
  have hname := List.find?_some hf
  simp only [Bool.and_eq_true, decide_eq_true_eq] at hname
  refine ⟨d, ?_, List.mem_of_find?_eq_some hf, hname.1⟩
  rcases List.mem_append.1 hd with hd | hd
  · exact forall_chain_of_above h c hc d hd
  · exact forall_interfaceOrder h c hc d hd

end Class

namespace CoreLibrary

def IsConstructor (m : Method) : Prop :=
  m.name = .constructor ∧ m.isNative = false ∧ ∃ code, m.code = some code ∧ code.isBasic = true

theorem constructors_basic : ∀ c ∈ classes, ∀ d ∈ c.methods, d.name = .constructor →
    d.access.isNative = false ∧ (d.code.any (·.isBasic)) = true := by
  decide +kernel

theorem no_initializers : ∀ c ∈ classes, ∀ d ∈ c.methods, d.name ≠ .staticInitializer := by
  decide +kernel

theorem has_links : ∀ c ∈ classes, ∀ n ∈ c.superclass.toList ++ c.interfaces, Has n := by
  decide +kernel

theorem names_regular : ∀ c ∈ classes, c.name.isArray = false ∧
    (BaseType.all.find? fun b => b.primitiveName = c.name.text) = none := by
  decide +kernel

theorem exists_of_has {n : ClassName} (h : Has n) :
    ∃ d ∈ classes, d.name = n ∧ library.class? n = some d := by
  obtain ⟨d, hd⟩ := Option.isSome_iff_exists.1 h
  have hd' := hd
  simp only [Library.class?, Entries.get?, library, Option.map_eq_some_iff] at hd
  obtain ⟨e, he, rfl⟩ := hd
  obtain ⟨c, hc, rfl⟩ := List.mem_map.1 (List.mem_of_find?_eq_some he)
  exact ⟨c, hc, by simpa using List.find?_some he, hd'⟩

variable {rest : List Library} {table : ClassTable} {n : ClassName} {c : Class}

theorem definesRegular_of_has {k : Definition} (h : define (library :: rest) n = .ok k)
    (hn : Has n) : ∃ d ∈ classes, DefinesRegular n d k := by
  obtain ⟨d, hd, rfl, hl⟩ := exists_of_has hn
  obtain ⟨harray, hbase⟩ := names_regular d hd
  cases defines h with
  | arrayOf ha => cases harray.symm.trans ha
  | baseArray ha => cases harray.symm.trans ha
  | primitive _ hb => cases hbase.symm.trans hb
  | regular _ hdata hk =>
    have hfirst : classData? (library :: rest) d.name = some d := by
      simp [classData?, hl]
    cases hfirst.symm.trans hdata
    exact ⟨d, hd, hk⟩

variable (h : Closed (library :: rest) table) (hc : table.get? n = some c) (hn : Has n)

include h hc hn

theorem regular_of_has : ∃ d ∈ classes, d.name = n ∧ ∃ superclass interfaces,
    c = regular n d superclass interfaces := by
  obtain ⟨k, cs, hd, rfl, -⟩ := h n c hc
  obtain ⟨d, hmem, hk⟩ := definesRegular_of_has hd hn
  exact ⟨d, hmem, hk.name, hk.build cs⟩

theorem exists_method {m : Method} (hm : m ∈ c.methods) :
    ∃ d ∈ classes, ∃ k ∈ d.methods, m = ⟨n, k.name, k.type, k.access, k.code⟩ := by
  obtain ⟨d, hd, -, superclass, interfaces, rfl⟩ := regular_of_has h hc hn
  obtain ⟨k, hk, rfl⟩ := List.mem_map.1 hm
  exact ⟨d, hd, k, hk, rfl⟩

theorem isConstructor_of_mem {m : Method} (hm : m ∈ c.methods) (hname : m.name = .constructor) :
    IsConstructor m := by
  obtain ⟨d, hd, k, hk, rfl⟩ := exists_method h hc hn hm
  obtain ⟨hnative, hcode⟩ := constructors_basic d hd k hk hname
  exact ⟨hname, hnative, (Option.any_eq_true _ _).1 hcode⟩

theorem declaredMethod?_staticInitializer (t : MethodType) :
    c.declaredMethod? .staticInitializer t = none := by
  refine List.find?_eq_none.2 fun m hm hp => ?_
  obtain ⟨d, hd, k, hk, rfl⟩ := exists_method h hc hn hm
  simp only [Bool.and_eq_true, decide_eq_true_eq] at hp
  exact no_initializers d hd k hk hp.1

theorem exists_of_mem_above {s : Class} (hs : s ∈ c.above true) :
    ∃ d ∈ classes, d.name = n ∧ s.name ∈ d.superclass.toList ++ d.interfaces := by
  obtain ⟨k, cs, hd, rfl, hl⟩ := h n c hc
  obtain ⟨d, hmem, hk⟩ := definesRegular_of_has hd hn
  obtain ⟨l, hl, hs'⟩ := hl.exists_of_mem (mem_of_mem_above_build hd hs)
  exact ⟨d, hmem, hk.name, h.name hs' ▸ hk.links l hl⟩

theorem has_of_mem_above {s : Class} (hs : s ∈ c.above true) : Has s.name := by
  obtain ⟨d, hd, -, hmem⟩ := exists_of_mem_above h hc hn hs
  exact has_links d hd s.name hmem

omit hc hn in
theorem isConstructor_of_lookup {ref : MethodRef} {m : Method} (hc : table.get? ref.klass = some c)
    (hn : Has ref.klass) (hname : ref.name = .constructor)
    (hm : c.lookupMethod? ref.name ref.type = some m) : IsConstructor m := by
  let P (d : Class) : Prop := table.get? d.name = some d ∧ Has d.name
  have hP (d : Class) (hd : P d) (s : Class) (hs : s ∈ d.above true) : P s :=
    ⟨h.above hd.1 hs, has_of_mem_above h hd.1 hd.2 hs⟩
  have hPc : P c := by
    have := h.name hc
    rw [← this] at hc hn
    exact ⟨hc, hn⟩
  obtain ⟨d, hd, hmem, hm'⟩ := Class.exists_of_lookupMethod? hm hP hPc
  exact isConstructor_of_mem h hd.1 hd.2 hmem (hm'.trans hname)

end CoreLibrary

end BytecodeMachine
