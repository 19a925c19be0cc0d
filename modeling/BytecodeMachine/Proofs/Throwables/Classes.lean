import BytecodeMachine.Proofs.Bridge.Constructors
import BytecodeMachine.Proofs.Lookup.Methods

namespace BytecodeMachine

namespace CoreLibrary

open ClassTable

variable {c : Class} {d : Nat} {n : ClassName}

def belowRecord (n : ClassName) (above : Class) : Class :=
  ClassTable.regular n (throwableClass n above.name) (some above) []

def messageField : Field := ⟨.throwable, .message, .string, hidden, 0, some 0, none⟩

inductive IsThrowable : Nat → Class → Prop
  | root : IsThrowable 0 throwableRecord
  | under {d : Nat} {n : ClassName} {c : Class} (hc : IsThrowable d c)
      (hn : (n, c.name) ∈ throwables) : IsThrowable (d + 1) (belowRecord n c)

def throwableNames : List ClassName := .throwable :: throwables.map (·.1)

theorem className_mem_throwableNames (q : Condition) : q.className ∈ throwableNames := by
  cases q <;> decide +kernel

theorem extended_throwables : ∀ e ∈ throwables, e.2 ∈ [ClassName.throwable, .exception, .error,
    .runtimeException, .indexOutOfBounds, .linkage, .incompatibleClassChange, .virtualMachine] := by
  decide +kernel

theorem exists_throwable (hn : n ∈ throwableNames) : ∃ d c, IsThrowable d c ∧ c.name = n ∧ d ≤ 4 := by
  have below {d : Nat} {n s : ClassName} (hn : (n, s) ∈ throwables)
      (hs : ∃ c, IsThrowable d c ∧ c.name = s) : ∃ c, IsThrowable (d + 1) c ∧ c.name = n := by
    obtain ⟨c, hc, rfl⟩ := hs
    exact ⟨_, .under hc hn, rfl⟩
  have hroot : ∃ c, IsThrowable 0 c ∧ c.name = .throwable := ⟨_, .root, rfl⟩
  have hexception := below (n := .exception) (by decide +kernel) hroot
  have herror := below (n := .error) (by decide +kernel) hroot
  have hruntime := below (n := .runtimeException) (by decide +kernel) hexception
  have hlinkage := below (n := .linkage) (by decide +kernel) herror
  have hvirtual := below (n := .virtualMachine) (by decide +kernel) herror
  have hindex := below (n := .indexOutOfBounds) (by decide +kernel) hruntime
  have hchange := below (n := .incompatibleClassChange) (by decide +kernel) hlinkage
  rcases List.mem_cons.1 hn with rfl | hn
  · exact ⟨0, throwableRecord, .root, rfl, by decide⟩
  obtain ⟨⟨n, s⟩, he, rfl⟩ := List.mem_map.1 hn
  have hs := extended_throwables _ he
  simp only [List.mem_cons, List.not_mem_nil, or_false] at hs
  have last {d : Nat} {s : ClassName} (hd : d ≤ 3) (hs : ∃ c, IsThrowable d c ∧ c.name = s)
      (he : (n, s) ∈ throwables) : ∃ d c, IsThrowable d c ∧ c.name = n ∧ d ≤ 4 := by
    obtain ⟨c, hc, hn⟩ := below he hs
    exact ⟨d + 1, c, hc, hn, Nat.succ_le_succ hd⟩
  rcases hs with rfl | rfl | rfl | rfl | rfl | rfl | rfl | rfl
  · exact last (by decide) hroot he
  · exact last (by decide) hexception he
  · exact last (by decide) herror he
  · exact last (by decide) hruntime he
  · exact last (by decide) hindex he
  · exact last (by decide) hlinkage he
  · exact last (by decide) hchange he
  · exact last (by decide) hvirtual he

theorem define_throwable (rest : List Library) : ∀ e ∈ throwables, define (library :: rest) e.1 =
    .ok ⟨[(.superclass, e.2)],
      fun cs => ClassTable.regular e.1 (throwableClass e.1 e.2) cs.head? cs.tail⟩ := by
  intro e he
  simp only [throwables, List.mem_cons, List.not_mem_nil, or_false] at he
  rcases he with rfl | rfl | rfl | rfl | rfl | rfl | rfl | rfl | rfl | rfl | rfl | rfl | rfl | rfl |
    rfl | rfl | rfl | rfl | rfl | rfl | rfl | rfl
  all_goals rfl

theorem ne_string_of_throwables : ∀ e ∈ throwables, e.1 ≠ .string := by decide +kernel

namespace IsThrowable

theorem layout (h : IsThrowable d c) : c.layout = [.string] := by
  induction h with
  | root => rfl
  | under _ _ ih => exact ih

theorem access (h : IsThrowable d c) : c.access = .plain := by cases h <;> rfl

theorem innermost (h : IsThrowable d c) : c.innermost = c := by cases h <;> rfl

theorem isPublic (h : IsThrowable d c) : c.isPublic = true := by
  rw [Class.isPublic, h.access]
  rfl

theorem isInterface (h : IsThrowable d c) : c.isInterface = false := by
  rw [Class.isInterface, h.access]
  rfl

theorem isArray (h : IsThrowable d c) : c.isArray = false := by cases h <;> rfl

theorem ne_string (h : IsThrowable d c) : c.name ≠ .string := by
  cases h with
  | root => decide
  | under _ hn => exact ne_string_of_throwables _ hn

theorem lookupField?_message (h : IsThrowable d c) : c.lookupField? .message = some messageField := by
  induction h with
  | root => rfl
  | under _ _ ih => exact ih

theorem provided (h : IsThrowable d c) : Provides c.name c := by
  intro rest
  induction h with
  | root =>
    have hd : define (library :: rest) .throwable =
        .ok ⟨[(.superclass, .object), (.interface, .serializable)],
          fun cs => ClassTable.regular .throwable throwable cs.head? cs.tail⟩ := rfl
    have hlinks : Links records .throwable [(.superclass, .object), (.interface, .serializable)]
        [objectRecord, serializableRecord] := .cons ⟨rfl, rfl⟩ (.cons ⟨rfl, rfl⟩ .nil)
    exact loads_build (closed_records rest) hd hlinks
  | @under d n c hc hn ih =>
    obtain ⟨table, hclosed, hget⟩ := ih.exists_get?
    have hlinks : Links table n [(.superclass, c.name)] [c] :=
      .cons ⟨hget, by simp [Role.refuse?, hc.isInterface]⟩ .nil
    exact loads_build hclosed (define_throwable rest _ hn) hlinks

theorem root_mem_chain (h : IsThrowable d c) : throwableRecord ∈ c.chain := by
  induction h with
  | root => exact throwableRecord.mem_chain_self
  | under _ _ ih =>
    rw [Class.chain_of_superclass rfl]
    exact List.mem_cons_of_mem _ ih

theorem isAssignable (h : IsThrowable d c) : c.isAssignable throwableRecord = true := by
  obtain ⟨table, hclosed, hget⟩ := (h.provided []).exists_get?
  rw [Class.isAssignable_eq_reaches h.isArray]
  exact hclosed.reaches hget false (.inl h.root_mem_chain)

end IsThrowable

theorem keeps_message : Keeps throwableRecord messageField :=
  ⟨IsThrowable.root.provided, rfl, rfl, rfl, rfl, rfl, rfl⟩

def handingConstructor (n above : ClassName) : Method :=
  ⟨n, .constructor, .void [.string], openMethod, some (.plain 2
    [loadThis, .load .reference 1, construct above [.string], .returnVoid])⟩

structure TakesMessage (c : Class) (m : Method) : Prop where
  declared : c.declaredMethod? .constructor (.void [.string]) = some m
  owner : m.owner = c.name
  name : m.name = .constructor
  type : m.type = .void [.string]
  access : m.access = openMethod
  code : m.code.isSome = true

theorem takesMessage_root :
    TakesMessage throwableRecord (keepingConstructor .throwable messageField) :=
  ⟨rfl, rfl, rfl, rfl, rfl, rfl⟩

theorem takesMessage_below (n : ClassName) (c : Class) :
    TakesMessage (belowRecord n c) (handingConstructor n c.name) :=
  ⟨rfl, rfl, rfl, rfl, rfl, rfl⟩

theorem IsThrowable.exists_takesMessage (h : IsThrowable d c) : ∃ m, TakesMessage c m := by
  cases h with
  | root => exact ⟨_, takesMessage_root⟩
  | under => exact ⟨_, takesMessage_below _ _⟩

theorem TakesMessage.lookupMethod? {m : Method} (h : TakesMessage c m) :
    c.lookupMethod? .constructor (.void [.string]) = some m :=
  Class.lookupMethod?_of_chain c.chain_eq_cons (List.forall_mem_nil (fun j : Class =>
    j.declaredMethod? .constructor (.void [.string]) = none)) h.declared

theorem TakesMessage.exists_enter {m : Method} (h : TakesMessage c m) (o p : ObjectId) :
    ∃ f, Frame.enter c m [.object o, .object p] = .ok f := by
  obtain ⟨code, hcode⟩ := Option.isSome_iff_exists.1 h.code
  exact ⟨_, enter_constructor c hcode h.access h.type rfl o p⟩

end CoreLibrary

namespace Exec

open CoreLibrary

theorem setsUp_throwable {c : Class} {d : Nat} (h : IsThrowable d c) (n : Nat) :
    SetsUp (.bounded (n + 3 + d)) c := by
  induction h with
  | root => exact setsUp_bounded rfl (List.forall_mem_cons.2 ⟨setsUp_object (n + 1),
      List.forall_mem_singleton.2 (setsUp_serializable n)⟩)
  | under _ _ ih => exact setsUp_bounded rfl (List.forall_mem_singleton.2 ih)

end Exec

end BytecodeMachine
