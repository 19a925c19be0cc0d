import BytecodeMachine.Proofs.Setup.Core

namespace BytecodeMachine

namespace ClassTable

structure Placed (owner : ClassName) (first : Nat) (layout layout' : List FieldType)
    (fields : List Field) : Prop where
  grows : layout <+: layout'
  owner : ∀ f ∈ fields, f.owner = owner
  first : ∀ f ∈ fields, first ≤ f.index
  index : ∀ f ∈ fields, ∀ g ∈ fields, f.index = g.index → f = g
  place : ∀ f ∈ fields, f.isStatic = false →
    ∃ k, f.slot = some k ∧ layout.length ≤ k ∧ layout'[k]? = some f.type
  static : ∀ f ∈ fields, f.isStatic = true → f.slot = none
  slot : ∀ f ∈ fields, ∀ g ∈ fields, f.isStatic = false → f.slot = g.slot → f = g

variable {owner : ClassName} {first : Nat} {layout layout' : List FieldType} {fields : List Field}

theorem Placed.bound (h : Placed owner first layout layout' fields) {f : Field} {k : Nat}
    (hf : f ∈ fields) (hk : f.slot = some k) : layout.length ≤ k := by
  cases hs : f.isStatic with
  | true => cases (h.static f hf hs).symm.trans hk
  | false =>
    obtain ⟨j, hj, hle, -⟩ := h.place f hf hs
    cases hj.symm.trans hk
    exact hle

theorem Placed.cons {next : List FieldType} {f : Field}
    (h : Placed owner (first + 1) next layout' fields) (ho : f.owner = owner)
    (hi : f.index = first)
    (hf : f.isStatic = true ∧ f.slot = none ∧ next = layout ∨
      f.isStatic = false ∧ f.slot = some layout.length ∧ next = layout ++ [f.type]) :
    Placed owner first layout layout' (f :: fields) := by
  have fresh : ∀ g ∈ fields, g.index ≠ f.index := by
    intro g hg he
    have := h.first g hg
    omega
  have hnext : layout.length ≤ next.length ∧ layout <+: next := by
    rcases hf with ⟨-, -, rfl⟩ | ⟨-, -, rfl⟩
    · exact ⟨Nat.le_refl _, List.prefix_rfl⟩
    · exact ⟨by simp, List.prefix_append layout _⟩
  have apart : ∀ g ∈ fields, f.isStatic = false → g.slot ≠ f.slot := by
    rcases hf with ⟨hs, -, -⟩ | ⟨-, hk, rfl⟩
    · exact fun g _ hn => absurd hs (by simp [hn])
    · intro g hg _ he
      have := h.bound hg (he.trans hk)
      simp only [List.length_append, List.length_singleton] at this
      omega
  constructor
  case grows => exact hnext.2.trans h.grows
  case owner => exact List.forall_mem_cons.2 ⟨ho, h.owner⟩
  case first =>
    exact List.forall_mem_cons.2 ⟨Nat.le_of_eq hi.symm, fun g hg => Nat.le_of_succ_le (h.first g hg)⟩
  case index =>
    refine List.forall_mem_cons.2 ⟨List.forall_mem_cons.2 ⟨fun _ => rfl, ?_⟩, fun g hg => ?_⟩
    · exact fun g hg he => absurd he.symm (fresh g hg)
    · exact List.forall_mem_cons.2 ⟨fun he => absurd he (fresh g hg), h.index g hg⟩
  case place =>
    refine List.forall_mem_cons.2 ⟨fun hn => ?_, fun g hg hn => ?_⟩
    · rcases hf with ⟨hs, -, -⟩ | ⟨-, hk, rfl⟩
      · cases hs.symm.trans hn
      · obtain ⟨rest, hr⟩ := h.grows
        exact ⟨_, hk, Nat.le_refl _, by simp [← hr]⟩
    · obtain ⟨k, hk, hle, hget⟩ := h.place g hg hn
      exact ⟨k, hk, Nat.le_trans hnext.1 hle, hget⟩
  case static =>
    refine List.forall_mem_cons.2 ⟨fun hs => ?_, h.static⟩
    rcases hf with ⟨-, hk, -⟩ | ⟨hn, -, -⟩
    · exact hk
    · cases hn.symm.trans hs
  case slot =>
    refine List.forall_mem_cons.2 ⟨fun g hg hn he => ?_, fun g hg => ?_⟩
    · rcases List.mem_cons.1 hg with rfl | hg
      · rfl
      · exact absurd he.symm (apart g hg hn)
    · refine List.forall_mem_cons.2 ⟨fun hn he => ?_, h.slot g hg⟩
      rcases hf with ⟨-, hk, -⟩ | ⟨hn', -, -⟩
      · obtain ⟨k, hk', -⟩ := h.place g hg hn
        cases hk'.symm.trans (he.trans hk)
      · exact absurd he (apart g hg hn')

theorem placed_placeFields (owner : ClassName) (first : Nat) (layout : List FieldType)
    (ds : List FieldData) : Placed owner first layout (placeFields owner first layout ds).2
      (placeFields owner first layout ds).1 := by
  induction ds generalizing first layout with
  | nil => exact ⟨List.prefix_rfl, nofun, nofun, nofun, nofun, nofun, nofun⟩
  | cons d ds ih =>
    refine (ih (first + 1) (if d.access.isStatic then layout else layout ++ [d.type])).cons rfl rfl ?_
    cases hd : d.access.isStatic with
    | true => exact .inl ⟨hd, rfl, rfl⟩
    | false => exact .inr ⟨hd, rfl, rfl⟩

theorem exists_of_mem_placeFields {ds : List FieldData} {f : Field}
    (hf : f ∈ (placeFields owner first layout ds).1) :
    ∃ d ∈ ds, f.name = d.name ∧ f.type = d.type ∧ f.access = d.access ∧ f.constant = d.constant := by
  induction ds generalizing first layout with
  | nil => cases hf
  | cons d ds ih =>
    rcases List.mem_cons.1 hf with rfl | hf
    · exact ⟨d, List.mem_cons_self, rfl, rfl, rfl, rfl⟩
    · obtain ⟨e, he, h⟩ := ih hf
      exact ⟨e, List.mem_cons_of_mem d he, h⟩

end ClassTable

namespace Class

def base (c : Class) : List FieldType := (c.superclass.map (·.layout)).getD []

variable {P : Class → Prop}

mutual

theorem forall_fieldOrder (h : ∀ c, P c → ∀ s ∈ c.above true, P s) (c : Class) (hc : P c) :
    ∀ d ∈ c.fieldOrder, P d := by
  match c with
  | ⟨n, s, i, k, a, src, sh, f, m, l⟩ =>
      have ha := h _ hc
      intro d hd
      rcases List.mem_cons.1 hd with rfl | hd
      · exact hc
      · rcases List.mem_append.1 hd with hd | hd
        · exact forall_fieldOrder_ofList h i (fun s hs => ha s (List.mem_append_right _ hs)) d hd
        · refine forall_fieldOrder_ofOption h s (fun s hs => ha s ?_) d hd
          exact mem_above_of_superclass hs true

theorem forall_fieldOrder_ofOption (h : ∀ c, P c → ∀ s ∈ c.above true, P s) (s : Option Class)
    (hs : ∀ c, s = some c → P c) : ∀ d ∈ fieldOrder.ofOption s, P d := by
  match s with
  | none => exact fun d hd => nomatch hd
  | some c => exact forall_fieldOrder h c (hs c rfl)

theorem forall_fieldOrder_ofList (h : ∀ c, P c → ∀ s ∈ c.above true, P s) (cs : List Class)
    (hcs : ∀ c ∈ cs, P c) : ∀ d ∈ fieldOrder.ofList cs, P d := by
  match cs with
  | [] => exact fun d hd => nomatch hd
  | c :: cs =>
      intro d hd
      rcases List.mem_append.1 hd with hd | hd
      · exact forall_fieldOrder h c (hcs c List.mem_cons_self) d hd
      · exact forall_fieldOrder_ofList h cs (fun k hk => hcs k (List.mem_cons_of_mem c hk)) d hd

end

theorem exists_of_lookupField? {c : Class} {n : MemberName} {f : Field}
    (h : c.lookupField? n = some f) : ∃ d ∈ c.fieldOrder, f ∈ d.fields ∧ f.name = n := by
  rw [lookupField?_eq] at h
  obtain ⟨d, hd, hf⟩ := List.exists_of_findSome?_eq_some h
  exact ⟨d, hd, List.mem_of_find?_eq_some hf, by simpa using List.find?_some hf⟩

end Class

namespace ClassTable

variable {libraries : List Library} {table : ClassTable} {n : ClassName} {c : Class} {f : Field}

theorem Closed.placed (h : Closed libraries table) (hc : table.get? n = some c) :
    Placed n 0 c.base c.layout c.fields := by
  obtain ⟨d, cs, hd, rfl, -⟩ := h n c hc
  have bare (l : List FieldType) : Placed n 0 l l [] :=
    ⟨List.prefix_rfl, nofun, nofun, nofun, nofun, nofun, nofun⟩
  cases defines hd with
  | regular _ _ hk =>
    cases hk with
    | extending => exact placed_placeFields n 0 _ _
    | root => exact placed_placeFields n 0 _ _
  | _ => exact bare _

theorem Closed.fieldOrder (h : Closed libraries table) (hc : table.get? c.name = some c) :
    ∀ d ∈ c.fieldOrder, table.get? d.name = some d :=
  Class.forall_fieldOrder (fun _ hd _ hs => h.above hd hs) c hc

theorem Closed.owner {m : MemberName} (h : Closed libraries table) (hc : table.get? n = some c)
    (hf : c.lookupField? m = some f) : ∃ d, table.get? f.owner = some d ∧ f ∈ d.fields := by
  have hc' : table.get? c.name = some c := by rwa [h.name hc]
  obtain ⟨d, hd, hmem, -⟩ := Class.exists_of_lookupField? hf
  have hd' := h.fieldOrder hc' d hd
  exact ⟨d, by rwa [(h.placed hd').owner f hmem], hmem⟩

end ClassTable

theorem Resolving.keeps_resolveField (f : FieldRef) (context : Option Class)
    (libraries : List Library) (table : ClassTable) :
    (resolveField libraries f context).Keeps libraries (fun a table =>
      table.get? a.2.owner = some a.1 ∧ a.2.type = f.type ∧
        ∃ c, table.get? f.klass = some c ∧ c.lookupField? f.name = some a.2) table := by
  refine (finds_resolveClass f.klass context libraries table).bind fun c table hc => ?_
  split
  · exact keeps_throw
  · rename_i field hf
    dsimp only
    split
    · exact keeps_throw
    · rename_i ht
      have hload := (ClassTable.load_loaded libraries).1 [] field.owner table
      refine Keeps.bind (P := fun owner table =>
        table.get? field.owner = some owner ∧ table.get? f.klass = some c) ?_ fun owner table ho => ?_
      · exact ⟨hload.1, fun owner ho => ⟨hload.2 owner ho, hload.1.grows _ _ hc⟩⟩
      · refine (keeps_checkMember (Q := fun _ table =>
          table.get? field.owner = some owner ∧ table.get? f.klass = some c)
          _ _ _ _ fun _ => ho).bind ?_
        exact fun _ table ho => keeps_pure ⟨ho.1, Decidable.of_not_not ht, c, ho.2, hf⟩

namespace CoreLibrary

variable {rest : List Library} {table : ClassTable} {n : ClassName} {c : Class} {f : Field}

theorem no_statics : ∀ c ∈ classes, ∀ d ∈ c.fields, d.access.isStatic = false := by
  decide +kernel

theorem has_of_boxed (h : n.boxed?.isSome = true) : Has n := by
  unfold ClassName.boxed? at h
  repeat' split at h
  all_goals first
    | (subst n; decide)
    | cases h

theorem exists_slot (h : ClassTable.Closed (library :: rest) table) (hc : table.get? n = some c)
    (hn : Has n) (hf : f ∈ c.fields) : ∃ k, f.slot = some k := by
  have hplaced := h.placed hc
  obtain ⟨d, hd, -, superclass, interfaces, rfl⟩ := regular_of_has h hc hn
  obtain ⟨e, he, -, -, ha, -⟩ := ClassTable.exists_of_mem_placeFields hf
  have hs : f.isStatic = false := (congrArg FieldAccess.isStatic ha).trans (no_statics d hd e he)
  obtain ⟨k, hk, -⟩ := hplaced.place f hf hs
  exact ⟨k, hk⟩

end CoreLibrary

end BytecodeMachine
