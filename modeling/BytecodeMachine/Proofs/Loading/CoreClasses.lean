import BytecodeMachine.Bridge.Conversion
import BytecodeMachine.Proofs.Loading.History

namespace BytecodeMachine

namespace ClassTable

variable {libraries : List Library} {known table : ClassTable} {pending : List ClassName}
  {n : ClassName} {c : Class}

theorem eq_of_load (hknown : Closed libraries known) (hc : known.get? n = some c)
    (h : Closed libraries table) {k : Class} (hk : (load libraries pending n table).1 = .ok k) :
    k = c :=
  ((load_extends libraries pending n table).closed h).agree hknown
    (get?_of_load (Prod.ext hk rfl)) hc

theorem loadLinks_known (hknown : Closed libraries known) {owner : ClassName} {links : List Link}
    {cs : List Class} (hl : Links known owner links cs)
    (heach : ∀ c ∈ cs, ∀ m table, known.get? m = some c → Closed libraries table →
      ∃ k, (load libraries pending m table).1 = .ok k)
    (h : Closed libraries table) :
    ∃ ks, (loadLinks libraries pending owner links table).1 = .ok ks := by
  induction hl generalizing table with
  | nil => exact ⟨[], by rw [loadLinks]⟩
  | @cons l c links cs hc _ ih =>
    obtain ⟨hfirst, hrest⟩ := List.forall_mem_cons.1 heach
    obtain ⟨k, hk⟩ := hfirst l.2 table hc.1 h
    obtain rfl := eq_of_load hknown hc.1 h hk
    obtain ⟨ks, hks⟩ := ih hrest ((load_extends libraries pending l.2 table).closed h)
    refine ⟨k :: ks, ?_⟩
    rw [fst_loadLinks_cons, hk]
    dsimp only
    rw [hc.2]
    dsimp only
    rw [hks]
    rfl

theorem load_known {known table : ClassTable} {pending : List ClassName} {n : ClassName} {c : Class}
    (hknown : Closed libraries known) (hc : known.get? n = some c)
    (hp : ∀ m ∈ pending, ∀ k, known.get? m = some k → sizeOf c < sizeOf k)
    (h : Closed libraries table) : ∃ k, (load libraries pending n table).1 = .ok k := by
  cases hn : table.get? n with
  | some k => exact ⟨k, by rw [load, hn]⟩
  | none =>
    have hfree : n ∉ pending := fun hmem => Nat.lt_irrefl _ (hp n hmem c hc)
    obtain ⟨d, cs, hd, rfl, hl⟩ := hknown n c hc
    have hlinks : ∃ ks, (loadLinks libraries (n :: pending) n d.links table).1 = .ok ks := by
      refine loadLinks_known hknown hl (fun k hk m table hm ht => ?_) h
      have hlt := Class.sizeOf_lt_of_mem_linked (mem_linked_build hd hl hk)
      refine load_known hknown hm (List.forall_mem_cons.2 ⟨fun k' hk' => ?_, ?_⟩) ht
      · cases hc.symm.trans hk'
        exact hlt
      · exact fun m hm k' hk' => Nat.lt_trans hlt (hp m hm k' hk')
    obtain ⟨ks, hks⟩ := hlinks
    rw [load_of_define hn hfree hd]
    rcases hr : loadLinks libraries (n :: pending) n d.links table with ⟨_ | ks, t⟩
    · rw [hr] at hks
      cases hks
    · exact ⟨_, rfl⟩
termination_by sizeOf c

theorem load_agree {table' : ClassTable} (h : Closed libraries table) (h' : Closed libraries table')
    (hc : (load libraries [] n table).1 = .ok c) : (load libraries [] n table').1 = .ok c := by
  have hknown := (load_extends libraries [] n table).closed h
  have hget := get?_of_load (Prod.ext hc rfl)
  obtain ⟨k, hk⟩ : ∃ k, (load libraries [] n table').1 = .ok k :=
    load_known hknown hget nofun h'
  exact hk.trans (congrArg _ (eq_of_load hknown hget h' hk))

def Loads (libraries : List Library) (n : ClassName) (c : Class) : Prop :=
  ∀ table, Closed libraries table → (load libraries [] n table).1 = .ok c

theorem loads_of_get? (h : Closed libraries table) (hn : table.get? n = some c) :
    Loads libraries n c := by
  intro table' h'
  refine load_agree h h' ?_
  rw [load_of_get? hn]

-- There is a table with nothing but the class and what it needs.
theorem Loads.exists_get? (h : Loads libraries n c) :
    ∃ table, Closed libraries table ∧ table.get? n = some c :=
  ⟨(load libraries [] n []).2, (load_extends libraries [] n []).closed (closed_nil libraries),
    get?_of_load (Prod.ext (h [] (closed_nil libraries)) rfl)⟩

theorem Loads.name (h : Loads libraries n c) : c.name = n := by
  obtain ⟨table, hclosed, hn⟩ := h.exists_get?
  exact hclosed.name hn

theorem loads_build (h : Closed libraries table) {d : Definition} {cs : List Class}
    (hd : define libraries n = .ok d) (hl : Links table n d.links cs) :
    Loads libraries n (d.build cs) := by
  obtain ⟨hloaded, hget⟩ := loaded_register hd hl
  have hclosed := hloaded.closed h
  have hn := hget _ rfl
  obtain ⟨d', ks, hd', hb, hks⟩ := hclosed n _ hn
  cases hd.symm.trans hd'
  have heq : cs = ks := hl.eq hks fun c hc m k hm hk => h.agree hclosed hm hk
  rw [hb, ← heq] at hn
  exact loads_of_get? hclosed hn

end ClassTable

namespace CoreLibrary

open ClassTable

def objectRecord : Class := ClassTable.regular .object object none []

def cloneableRecord : Class :=
  ClassTable.regular .cloneable (interface .cloneable) (some objectRecord) []

def serializableRecord : Class :=
  ClassTable.regular .serializable (interface .serializable) (some objectRecord) []

def stringRecord : Class :=
  ClassTable.regular .string stringClass (some objectRecord) [serializableRecord]

def klassRecord : Class := ClassTable.regular .klass classObject (some objectRecord) []

def numberRecord : Class :=
  ClassTable.regular .number number (some objectRecord) [serializableRecord]

def throwableRecord : Class :=
  ClassTable.regular .throwable throwable (some objectRecord) [serializableRecord]

def boxRecord (n superclass : ClassName) (b : BaseType) (accessor : String) : Class :=
  ClassTable.regular n (box n superclass b accessor)
    (some (if superclass = .number then numberRecord else objectRecord)) []

def arrayRecord (n : ClassName) (t : FieldType) (component : Option Class) : Class :=
  ClassTable.array n t component [objectRecord, cloneableRecord, serializableRecord]

def charsName : ClassName := ⟨"[C"⟩

def intsName : ClassName := ⟨"[I"⟩

def stringsName : ClassName := ⟨"[Ljava/lang/String;"⟩

theorem className?_chars : FieldType.chars.className? = some charsName := by decide +kernel

theorem className?_ints : (FieldType.array .int).className? = some intsName := by decide +kernel

theorem className?_strings : (FieldType.array .string).className? = some stringsName := by
  decide +kernel

def charsRecord : Class := arrayRecord charsName (.base .char) none

def intsRecord : Class := arrayRecord intsName .int none

def stringsRecord : Class := arrayRecord stringsName .string (some stringRecord)

def records : ClassTable :=
  [(.object, objectRecord), (.cloneable, cloneableRecord), (.serializable, serializableRecord),
    (.string, stringRecord), (.klass, klassRecord), (.number, numberRecord),
    (charsName, charsRecord), (intsName, intsRecord), (stringsName, stringsRecord)]
    ++ boxes.map fun (n, superclass, b, accessor) => (n, boxRecord n superclass b accessor)

variable {rest : List Library}

theorem links_arraySupers (owner : ClassName) :
    Links records owner arraySupers [objectRecord, cloneableRecord, serializableRecord] :=
  .cons ⟨rfl, rfl⟩ (.cons ⟨rfl, rfl⟩ (.cons ⟨rfl, rfl⟩ .nil))

theorem define_strings : define (library :: rest) stringsName =
    .ok ⟨(.component, .string) :: arraySupers,
      fun cs => array stringsName .string cs.head? cs.tail⟩ := by
  have hp : FieldType.parse stringsName.text = .ok (.array .string) := by decide +kernel
  have ha : stringsName.isArray = true := by decide
  simp [define, defineArray, hp, ha, FieldType.className?, FieldType.string]

theorem defined_box : ∀ e ∈ boxes,
    Defined (library :: rest) records e.1 (boxRecord e.1 e.2.1 e.2.2.1 e.2.2.2) := by
  intro e he
  simp only [boxes, List.mem_cons, List.not_mem_nil, or_false] at he
  rcases he with rfl | rfl | rfl | rfl | rfl | rfl | rfl | rfl
  all_goals exact ⟨_, [_], rfl, rfl, .cons ⟨rfl, rfl⟩ .nil⟩

theorem closed_records (rest : List Library) : Closed (library :: rest) records := by
  intro n c h
  have hmem := Entries.mem_of_get? h
  simp only [records, List.cons_append, List.nil_append, List.mem_cons, List.mem_map,
    Prod.mk.injEq] at hmem
  rcases hmem with ⟨rfl, rfl⟩ | ⟨rfl, rfl⟩ | ⟨rfl, rfl⟩ | ⟨rfl, rfl⟩ | ⟨rfl, rfl⟩ | ⟨rfl, rfl⟩ |
    ⟨rfl, rfl⟩ | ⟨rfl, rfl⟩ | ⟨rfl, rfl⟩ | ⟨e, he, rfl, rfl⟩
  · exact ⟨_, [], rfl, rfl, .nil⟩
  · exact ⟨_, [_], rfl, rfl, .cons ⟨rfl, rfl⟩ .nil⟩
  · exact ⟨_, [_], rfl, rfl, .cons ⟨rfl, rfl⟩ .nil⟩
  · exact ⟨_, [_, _], rfl, rfl, .cons ⟨rfl, rfl⟩ (.cons ⟨rfl, rfl⟩ .nil)⟩
  · exact ⟨_, [_], rfl, rfl, .cons ⟨rfl, rfl⟩ .nil⟩
  · exact ⟨_, [_, _], rfl, rfl, .cons ⟨rfl, rfl⟩ (.cons ⟨rfl, rfl⟩ .nil)⟩
  · exact ⟨_, _, rfl, rfl, links_arraySupers _⟩
  · exact ⟨_, _, rfl, rfl, links_arraySupers _⟩
  · exact ⟨_, _ :: _, define_strings, rfl, .cons ⟨rfl, rfl⟩ (links_arraySupers _)⟩
  · exact defined_box e he

variable {table : ClassTable} {n : ClassName} {c k : Class}

def Provides (n : ClassName) (c : Class) : Prop := ∀ rest, Loads (library :: rest) n c

theorem provides_record (hc : records.get? n = some c) : Provides n c :=
  fun rest => loads_of_get? (closed_records rest) hc

theorem load_record (h : Closed (library :: rest) table) (hc : records.get? n = some c) :
    (load (library :: rest) [] n table).1 = .ok c :=
  provides_record hc rest table h

theorem get?_box : ∀ e ∈ boxes,
    records.get? e.1 = some (boxRecord e.1 e.2.1 e.2.2.1 e.2.2.2) := by
  intro e he
  simp only [boxes, List.mem_cons, List.not_mem_nil, or_false] at he
  rcases he with rfl | rfl | rfl | rfl | rfl | rfl | rfl | rfl
  all_goals rfl

theorem exists_box {b : BaseType} (h : n.boxed? = some b) :
    ∃ e ∈ boxes, e.1 = n ∧ e.2.2.1 = b := by
  unfold ClassName.boxed? at h
  repeat' split at h
  all_goals cases h
  all_goals
    subst n
    decide +kernel

end CoreLibrary

end BytecodeMachine
