import BytecodeMachine.Proofs.Typing.ArrayClasses

namespace BytecodeMachine

def ClassName.isPrimitive (n : ClassName) : Bool :=
  (BaseType.all.find? fun b => b.primitiveName = n.text).isSome

namespace Class

variable {c k s : Class}

def linked (c : Class) : List Class := c.above true ++ c.component.toList

def Holds (c k : Class) : Prop := k ∈ c.linked

theorem mem_linked_of_above (h : s ∈ c.above true) : s ∈ c.linked :=
  List.mem_append_left _ h

theorem mem_linked_of_component (h : c.component = some k) : k ∈ c.linked :=
  List.mem_append_right _ (Option.mem_toList.2 h)

theorem sizeOf_lt_of_mem_linked (h : k ∈ c.linked) : sizeOf k < sizeOf c := by
  obtain ⟨n, s, i, o, a, src, sh, f, m, l⟩ := c
  rcases List.mem_append.1 h with h | h
  · rcases List.mem_append.1 h with h | h
    · cases Option.mem_toList.1 h
      simp
      omega
    · have := List.sizeOf_lt_of_mem (show k ∈ i from h)
      simp
      omega
  · cases Option.mem_toList.1 h
    simp
    omega

end Class

namespace ClassTable

variable {libraries : List Library} {table : ClassTable} {n m : ClassName} {c k : Class}

inductive Record (libraries : List Library) (table : ClassTable) (n : ClassName) : Class → Prop
  | array {t : FieldType} {component : Option Class} {object cloneable serializable : Class}
      (ha : n.isArray = true) (ht : FieldType.parse n.text = .ok (.array t))
      (hk : Option.Rel (fun m k => table.get? m = some k) t.className? component)
      (ho : table.get? .object = some object) (hc : table.get? .cloneable = some cloneable)
      (hs : table.get? .serializable = some serializable) :
      Record libraries table n (ClassTable.array n t component [object, cloneable, serializable])
  | primitive {b : BaseType} (ha : n.isArray = false)
      (hb : (BaseType.all.find? fun b => b.primitiveName = n.text) = some b) :
      Record libraries table n (ClassTable.primitive n b)
  | regular {d : ClassData} {superclass : Option Class} {interfaces : List Class}
      (ha : n.isArray = false) (hp : n.isPrimitive = false) (hd : classData? libraries n = some d)
      (hs : Option.Rel (fun m k => table.get? m = some k ∧ k.isInterface = false)
        d.superclass superclass)
      (hi : List.Forall₂ (fun m k => table.get? m = some k ∧ k.isInterface = true)
        d.interfaces interfaces)
      (ho : superclass = none → n = .object) :
      Record libraries table n (ClassTable.regular n d superclass interfaces)

theorem links_interfaces {owner : ClassName} {names : List ClassName} {cs : List Class}
    (h : Links table owner (names.map fun i => (Role.interface, i)) cs) :
    List.Forall₂ (fun m k => table.get? m = some k ∧ k.isInterface = true) names cs := by
  refine (List.forall₂_map_left_iff.1 h).imp fun m k hk => ⟨hk.1, ?_⟩
  by_contra hi
  simp [Role.refuse?, hi] at hk

theorem define_primitive {b : BaseType} (ha : n.isArray = false)
    (hb : (BaseType.all.find? fun b => b.primitiveName = n.text) = some b) :
    define libraries n = .ok ⟨[], fun _ => ClassTable.primitive n b⟩ := by
  simp [define, ha, hb]

theorem isPrimitive_of_regular {d : Definition} {data : ClassData} (ha : n.isArray = false)
    (hd : define libraries n = .ok d) (hk : DefinesRegular n data d) : n.isPrimitive = false := by
  by_contra hp
  obtain ⟨b, hb⟩ := Option.isSome_iff_exists.1 (Bool.not_eq_false _ ▸ hp)
  cases hd.symm.trans (define_primitive ha hb)
  obtain ⟨superclass, interfaces, hr⟩ := hk.build []
  exact ClassShape.noConfusion (congrArg Class.shape hr)

theorem Closed.record (h : Closed libraries table) (hc : table.get? n = some c) :
    Record libraries table n c := by
  obtain ⟨d, cs, hd, rfl, hl⟩ := h n c hc
  cases defines hd with
  | arrayOf ha ht hm =>
    obtain _ | ⟨hk, _ | ⟨ho, _ | ⟨hcl, _ | ⟨hs, _ | _⟩⟩⟩⟩ := hl
    exact .array ha ht (hm ▸ .some hk.1) ho.1 hcl.1 hs.1
  | baseArray ha ht hm =>
    obtain _ | ⟨ho, _ | ⟨hcl, _ | ⟨hs, _ | _⟩⟩⟩ := hl
    exact .array ha ht (hm ▸ .none) ho.1 hcl.1 hs.1
  | primitive ha hb => exact .primitive ha hb
  | regular ha hdata hk =>
    have hp : n.isPrimitive = false := isPrimitive_of_regular ha hd hk
    cases hk with
    | extending _ hs =>
      obtain _ | ⟨hsup, hl⟩ := hl
      refine .regular ha hp hdata (hs ▸ .some ⟨hsup.1, ?_⟩) (links_interfaces hl) nofun
      by_contra hi
      simp [Role.refuse?, hi] at hsup
    | root _ hs ho => exact .regular ha hp hdata (hs ▸ .none) (links_interfaces hl) fun _ => ho

theorem Closed.regular {d : ClassData} (h : Closed libraries table) (hc : table.get? n = some c)
    (ha : n.isArray = false) (hp : n.isPrimitive = false) (hd : classData? libraries n = some d) :
    ∃ superclass interfaces, c = ClassTable.regular n d superclass interfaces := by
  cases h.record hc with
  | array ha' => cases ha.symm.trans ha'
  | primitive _ hb => simp [ClassName.isPrimitive, hb] at hp
  | regular _ _ hd' =>
    cases hd.symm.trans hd'
    exact ⟨_, _, rfl⟩

theorem Closed.isArray_eq (h : Closed libraries table) (hc : table.get? n = some c) :
    c.isArray = n.isArray := by
  cases h.record hc with
  | array ha => exact ha.symm
  | primitive ha => exact ha.symm
  | regular ha => exact ha.symm

theorem Closed.isInterface_of_mem_interfaces (h : Closed libraries table)
    (hc : table.get? n = some c) (ha : c.isArray = false) (hk : k ∈ c.interfaces) :
    k.isInterface = true := by
  cases h.record hc with
  | array => cases ha
  | primitive => cases hk
  | @regular d superclass interfaces _ _ _ _ hi =>
    have hflip : List.Forall₂ (fun k m => k.isInterface = true ∧ table.get? m = some k) interfaces
        d.interfaces := (hi.imp fun m k hk => And.symm hk).flip
    exact ((List.forall₂_and_left _ _).1 hflip).1 k hk

def declaredAbove (libraries : List Library) (n : ClassName) : List ClassName :=
  if n.isArray then [.object, .cloneable, .serializable]
  else if n.isPrimitive then []
  else match classData? libraries n with
    | some d => d.superclass.toList ++ d.interfaces
    | none => []

def declaredComponent? (n : ClassName) : Option ClassName :=
  match FieldType.parse n.text with
  | .ok (.array t) => t.className?
  | _ => none

def declared (libraries : List Library) (n : ClassName) : List ClassName :=
  declaredAbove libraries n ++ (declaredComponent? n).toList

def DeclaresAbove (libraries : List Library) (n m : ClassName) : Prop :=
  m ∈ declaredAbove libraries n

def Declares (libraries : List Library) (n m : ClassName) : Prop := m ∈ declared libraries n

theorem declaredAbove_array (ha : n.isArray = true) :
    declaredAbove libraries n = [.object, .cloneable, .serializable] := by
  rw [declaredAbove, if_pos ha]

theorem declaredAbove_regular {d : ClassData} (ha : n.isArray = false) (hp : n.isPrimitive = false)
    (hd : classData? libraries n = some d) :
    declaredAbove libraries n = d.superclass.toList ++ d.interfaces := by
  simp [declaredAbove, ha, hp, hd]

theorem isArray_of_parse {t : FieldType} (ht : FieldType.parse n.text = .ok (.array t)) :
    n.isArray = true := by
  have hr := FieldType.eq_of_read (Reader.of_all ht)
  simp [ClassName.isArray, hr, FieldType.render]

theorem declaredComponent?_of_parse {t : FieldType} (ht : FieldType.parse n.text = .ok (.array t)) :
    declaredComponent? n = t.className? := by
  simp [declaredComponent?, ht]

theorem declaredComponent?_eq_none (ha : n.isArray = false) : declaredComponent? n = none := by
  unfold declaredComponent?
  split
  · rename_i t ht
    cases ha.symm.trans (isArray_of_parse ht)
  · rfl

section Names

variable {R : ClassName → Class → Prop} (h : Closed libraries table)
  (hR : ∀ m k, R m k → table.get? m = some k)

include h hR

theorem Closed.map_name {name : Option ClassName} {c : Option Class} (hl : Option.Rel R name c) :
    c.map (·.name) = name := by
  cases hl with
  | none => rfl
  | some hk => exact congrArg some (h.name (hR _ _ hk))

theorem Closed.map_names {names : List ClassName} {cs : List Class}
    (hl : List.Forall₂ R names cs) : cs.map (·.name) = names := by
  induction hl with
  | nil => rfl
  | cons hk _ ih => rw [List.map_cons, h.name (hR _ _ hk), ih]

end Names

theorem Closed.names_above (h : Closed libraries table) (hc : table.get? n = some c) :
    (c.above true).map (·.name) = declaredAbove libraries n := by
  cases h.record hc with
  | array ha _ _ ho hcl hs =>
    rw [declaredAbove_array ha]
    simp [Class.above, ClassTable.array, Class.start, h.name ho, h.name hcl, h.name hs]
  | primitive ha hb =>
    simp [declaredAbove, ha, ClassName.isPrimitive, hb, Class.above, ClassTable.primitive,
      Class.start]
  | @regular d superclass interfaces ha hp hd hs hi =>
    rw [declaredAbove_regular ha hp hd, ← h.map_name (fun _ _ hk => hk.1) hs,
      ← h.map_names (fun _ _ hk => hk.1) hi]
    change (superclass.toList ++ interfaces).map (·.name) = _
    rw [List.map_append]
    cases superclass <;> rfl

theorem Closed.name_component (h : Closed libraries table) (hc : table.get? n = some c) :
    c.component.map (·.name) = declaredComponent? n := by
  cases h.record hc with
  | array _ ht hk =>
    rw [declaredComponent?_of_parse ht]
    exact h.map_name (fun _ _ hk => hk) hk
  | primitive ha => exact (declaredComponent?_eq_none ha).symm
  | regular ha => exact (declaredComponent?_eq_none ha).symm

theorem Closed.names_linked (h : Closed libraries table) (hc : table.get? n = some c) :
    c.linked.map (·.name) = declared libraries n := by
  rw [Class.linked, List.map_append, h.names_above hc, declared, ← h.name_component hc]
  cases c.component <;> rfl

theorem Closed.linked (h : Closed libraries table) (hc : table.get? n = some c)
    (hk : k ∈ c.linked) : table.get? k.name = some k := by
  rcases List.mem_append.1 hk with hk | hk
  · exact h.above hc hk
  · have hk := Option.mem_toList.1 hk
    cases h.record hc with
    | array _ _ hcomp =>
      cases hk
      generalize hm : FieldType.className? _ = o at hcomp
      cases hcomp with
      | some hget => rwa [h.name hget]
    | primitive => cases hk
    | regular => cases hk

theorem Closed.exists_of_mem_declared (h : Closed libraries table) (hc : table.get? n = some c)
    (hm : m ∈ declared libraries n) : ∃ k ∈ c.linked, table.get? m = some k := by
  rw [← h.names_linked hc] at hm
  obtain ⟨k, hk, rfl⟩ := List.mem_map.1 hm
  exact ⟨k, hk, h.linked hc hk⟩

theorem Closed.exists_of_mem_declaredAbove (h : Closed libraries table)
    (hc : table.get? n = some c) (hm : m ∈ declaredAbove libraries n) :
    ∃ k ∈ c.above true, table.get? m = some k := by
  rw [← h.names_above hc] at hm
  obtain ⟨k, hk, rfl⟩ := List.mem_map.1 hm
  exact ⟨k, hk, h.above hc hk⟩

end ClassTable

end BytecodeMachine
