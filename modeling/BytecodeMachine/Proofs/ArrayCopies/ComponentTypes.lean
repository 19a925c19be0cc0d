import BytecodeMachine.Proofs.ArrayCopies
import BytecodeMachine.Proofs.Loading.CoreClasses
import BytecodeMachine.Proofs.Typing.Writes

namespace BytecodeMachine

-- The type that the elements of an array are kept as: a boolean is a byte.
def BaseType.stored : BaseType → BaseType
  | .boolean => .byte
  | b => b

theorem FieldType.exists_base {t : FieldType} (h : ¬ t.isReference = true) : ∃ b, t = .base b := by
  cases t with
  | base b => exact ⟨b, rfl⟩
  | object n => exact absurd rfl h
  | array t => exact absurd rfl h

namespace ElementKind

theorem ofType_eq_reference_iff {t : FieldType} :
    ofType t = .reference ↔ t.isReference = true := by
  cases t with
  | base b => cases b <;> decide
  | object n => exact iff_of_true rfl rfl
  | array t => exact iff_of_true rfl rfl

theorem ofType_base_eq_iff {a b : BaseType} :
    ofType (.base a) = ofType (.base b) ↔ a.stored = b.stored := by
  cases a <;> cases b <;> decide

end ElementKind

namespace Machine

variable {m : Machine} {o : ObjectId} {x : ArrayStorage}

def componentType? (m : Machine) (o : ObjectId) : Option FieldType :=
  (m.heap.get? o).bind (·.klass.componentType?)

theorem Sound.storage (h : m.Sound) (hx : m.storage? o = .ok x) :
    ∃ t, m.componentType? o = some t ∧ x.kind = .ofType t ∧
      (t.isReference = true → ∃ k, m.component? o = some k) ∧
      ∀ e, x.Has e → ∃ k, m.component? o = some k ∧ m.fitsComponent k e = true := by
  obtain ⟨object, ho, hb⟩ := storage?_eq_ok_iff.1 hx
  have hholds := h.arrays o object x ho hb
  have hcomponent : m.component? o = object.klass.component := by
    rw [component?, ho, Option.bind_some]
  obtain ⟨t, ht, hkind⟩ := hholds.kind
  rw [hcomponent]
  refine ⟨t, ?_, hkind, fun hr => ?_, hholds.elements⟩
  · rw [componentType?, ho, Option.bind_some, ht]
  · refine h.component_of_reference (h.known o object ho) hholds ?_
    rw [hkind, ElementKind.ofType_eq_reference_iff.2 hr]

end Machine

namespace ArrayStorage

variable {x : ArrayStorage} {e : ObjectId} {j : Nat}

theorem has_of_at? (h : x.at? j = some (.object e)) : x.Has e := by
  obtain ⟨a, ha, hw⟩ := Option.map_eq_some_iff.1 h
  exact List.mem_map.2 ⟨a, List.mem_of_getElem? (by rwa [Array.getElem?_toList]), hw⟩

end ArrayStorage

namespace ArrayCopy

variable {α : Type} {c : ArrayCopy} {m : Machine} {o p : ObjectId} {x y : ArrayStorage}

inductive Compatible (c : ArrayCopy) (m : Machine) (o p : ObjectId) (x : ArrayStorage) : Prop
  | base {a b : BaseType} (source : m.componentType? o = some (.base a))
      (dest : m.componentType? p = some (.base b)) (h : a.stored = b.stored)
  | references {t u : FieldType} {k : Class} (source : m.componentType? o = some t)
      (dest : m.componentType? p = some u) (ht : t.isReference = true) (hu : u.isReference = true)
      (component : m.component? p = some k)
      (h : ∀ j < c.count.toInt.toNat, ∀ e,
        x.at? (c.start.toInt.toNat + j) = some (.object e) → m.fitsComponent k e = true)

def Answers (c : ArrayCopy) (m : Machine) (o p : ObjectId) (x : ArrayStorage) :
    Except Trap (Option Value) → Prop
  | .ok v => v = none ∧ c.Compatible m o p x
  | .error trap => ¬ c.Compatible m o p x ∧
      ∃ cause, trap = .raise cause ∧ cause.condition = .arrayStore

theorem stands_of_sound (hm : m.Sound) (hs : c.source = some o) (hd : c.dest = some p)
    (hx : m.storage? o = .ok x) (hy : m.storage? p = .ok y) : c.Stands m where
  source o' h := by
    cases hs.symm.trans h
    obtain ⟨object, ho, -⟩ := Machine.storage?_eq_ok_iff.1 hx
    exact ⟨object, ho⟩
  dest p' h := by
    cases hd.symm.trans h
    obtain ⟨object, hp, -⟩ := Machine.storage?_eq_ok_iff.1 hy
    exact ⟨object, hp⟩
  elements o' x' j e h hx' he := by
    cases hs.symm.trans h
    cases hx.symm.trans hx'
    obtain ⟨-, -, -, -, helements⟩ := hm.storage hx
    obtain ⟨k, -, hfits⟩ := helements e (ArrayStorage.has_of_at? he)
    obtain ⟨object, hget, -⟩ := Machine.fitsComponent_iff.1 hfits
    exact ⟨object, hget⟩

theorem admits_iff {k : Class} {v : Value} :
    m.admits k v = true ↔ ∀ e, v = .object e → m.fitsComponent k e = true := by
  constructor
  · rintro h e rfl
    exact h
  · intro h
    match v with
    | .ref (some e) => exact h e rfl
    | .ref none | .int _ | .long _ | .float _ | .double _ => rfl

theorem compatible_of_kinds (hm : m.Sound) (hx : m.storage? o = .ok x)
    (hy : m.storage? p = .ok y) (hkinds : x.kind = y.kind)
    (h : x.kind = .reference → ∀ k ∈ m.component? p, ∀ j < c.count.toInt.toNat, ∀ e,
      x.at? (c.start.toInt.toNat + j) = some (.object e) → m.fitsComponent k e = true) :
    c.Compatible m o p x := by
  obtain ⟨t, ht, hxt, -, -⟩ := hm.storage hx
  obtain ⟨u, hu, hyu, hcomponent, -⟩ := hm.storage hy
  rw [hxt] at h
  rw [hxt, hyu] at hkinds
  by_cases hr : t.isReference = true
  · have href := ElementKind.ofType_eq_reference_iff.2 hr
    have hr' : u.isReference = true := ElementKind.ofType_eq_reference_iff.1 (hkinds ▸ href)
    obtain ⟨k, hk⟩ := hcomponent hr'
    exact .references ht hu hr hr' hk (h href k hk)
  · have hr' : ¬ u.isReference = true := fun hu =>
      hr (ElementKind.ofType_eq_reference_iff.1 (hkinds ▸ ElementKind.ofType_eq_reference_iff.2 hu))
    obtain ⟨a, rfl⟩ := FieldType.exists_base hr
    obtain ⟨b, rfl⟩ := FieldType.exists_base hr'
    exact .base ht hu (ElementKind.ofType_base_eq_iff.1 hkinds)

theorem allowed_iff_compatible (hm : m.Sound) (hx : m.storage? o = .ok x)
    (hy : m.storage? p = .ok y) (hc : c.count ≠ 0) :
    c.Allowed m o p x y ↔ c.Compatible m o p x := by
  obtain ⟨t, ht, hxt, -, helements⟩ := hm.storage hx
  obtain ⟨u, hu, hyu, -, -⟩ := hm.storage hy
  rw [Allowed, or_iff_right hc]
  constructor
  · rintro (rfl | ⟨hkinds, h⟩)
    · -- What an array has fits where it comes from.
      cases hx.symm.trans hy
      refine compatible_of_kinds hm hx hy rfl fun _ k hk j _ e he => ?_
      obtain ⟨k', hk', hfits⟩ := helements e (ArrayStorage.has_of_at? he)
      cases hk.symm.trans hk'
      exact hfits
    · refine compatible_of_kinds hm hx hy hkinds fun hr k hk j hj e he => ?_
      obtain ⟨k', hk', hadmits⟩ := h hr
      cases hk.symm.trans hk'
      exact admits_iff.1 (hadmits j hj (.object e) he) e rfl
  · intro h
    right
    cases h with
    | base source dest h =>
      cases ht.symm.trans source
      cases hu.symm.trans dest
      rw [hxt, hyu]
      refine ⟨ElementKind.ofType_base_eq_iff.2 h, fun hr => ?_⟩
      cases ElementKind.ofType_eq_reference_iff.1 hr
    | @references _ _ k source dest hr hr' component h =>
      cases ht.symm.trans source
      cases hu.symm.trans dest
      rw [hxt, hyu, ElementKind.ofType_eq_reference_iff.2 hr,
        ElementKind.ofType_eq_reference_iff.2 hr']
      refine ⟨rfl, fun _ => ⟨k, component, fun j hj v hv => admits_iff.2 ?_⟩⟩
      rintro e rfl
      exact h j hj e hv

theorem answers_of_outcome (hm : m.Sound) (hs : c.source = some o) (hd : c.dest = some p)
    (hx : m.storage? o = .ok x) (hy : m.storage? p = .ok y) (hin : c.Within x y)
    (hc : c.count ≠ 0) {r : Except Trap (Option Value)} (hr : c.Outcome m r)
    (hnone : ∀ v, r = .ok v → v = none) : c.Answers m o p x r := by
  have hallowed := allowed_iff_compatible hm hx hy hc
  have hverdict := verdict_of_arrays hs hd hx hy
  rw [if_neg (not_not_intro hin)] at hverdict
  by_cases h : c.Allowed m o p x y
  · rw [if_neg (not_not_intro h)] at hverdict
    cases r with
    | ok v => exact ⟨hnone v rfl, hallowed.1 h⟩
    | error trap =>
      obtain ⟨cause, -, hcause⟩ := hr
      cases hverdict.symm.trans hcause
  · rw [if_pos h] at hverdict
    cases r with
    | ok v => cases hverdict.symm.trans hr
    | error trap =>
      obtain ⟨cause, htrap, hcause⟩ := hr
      exact ⟨mt hallowed.2 h, cause, htrap, (Option.some.inj (hverdict.symm.trans hcause)).symm⟩

open Exec

variable {i : Nat} {t : Thread} {s : Scene} {f : Method}

theorem meets_answers (e : Engine) (kept : ObjectId → Prop) (hf : f.isStatic = true)
    (ht : f.type = ⟨[.object .object, .int, .object .object, .int, .int], none⟩)
    (hn : s.machine.natives.get? f.ref.nativeKey = some (.builtin .copyArray))
    (hm : s.machine.Sound) (hs : c.source = some o) (hd : c.dest = some p)
    (hx : s.machine.storage? o = .ok x) (hy : s.machine.storage? p = .ok y) (hin : c.Within x y)
    (hc : c.count ≠ 0) (hk : o ≠ p → kept o) :
    (callNative e f c.arguments).Meets (c.contract i kept s.machine) t (fun r t' _ =>
      t' = t ∧ c.Answers s.machine o p x r) s := by
  have hst := stands_of_sound hm hs hd hx hy
  have hkept (o' : ObjectId) (hs' : c.source = some o') (hd' : c.dest ≠ some o') : kept o' := by
    cases hs.symm.trans hs'
    exact hk fun hop => hd' (hop ▸ hd)
  refine (meets_callNative e hf ht hn hst hkept (Machine.honours_of_heap rfl rfl)).mono ?_
  rintro r t' s' ⟨rfl, hnone, hsettled⟩
  exact ⟨rfl, answers_of_outcome hm hs hd hx hy hin hc hsettled.outcome hnone⟩

theorem ends_answers (e : Engine) (hf : f.isStatic = true)
    (ht : f.type = ⟨[.object .object, .int, .object .object, .int, .int], none⟩)
    (hn : s.machine.natives.get? f.ref.nativeKey = some (.builtin .copyArray))
    (hm : s.machine.Sound) (hs : c.source = some o) (hd : c.dest = some p)
    (hx : s.machine.storage? o = .ok x) (hy : s.machine.storage? p = .ok y) (hin : c.Within x y)
    (hc : c.count ≠ 0) :
    (callNative e f c.arguments).Ends i t (fun r t' _ =>
      t' = t ∧ c.Answers s.machine o p x r) s := by
  have alone := meets_answers (i := i) (t := t) e (fun _ => True) hf ht hn hm hs hd hx
    hy hin hc fun _ => trivial
  exact Prog.Ends.of_meets (fun s => Machine.honours_of_heap rfl rfl) alone
    (ends_callNative e hf ht hn)

theorem copies_respect_component_types (e : Engine) (kept : ObjectId → Prop) (hf : f.isStatic = true)
    (ht : f.type = ⟨[.object .object, .int, .object .object, .int, .int], none⟩)
    (hn : s.machine.natives.get? f.ref.nativeKey = some (.builtin .copyArray))
    (hm : s.machine.Sound) (hs : c.source = some o) (hd : c.dest = some p)
    (hx : s.machine.storage? o = .ok x) (hy : s.machine.storage? p = .ok y) (hin : c.Within x y)
    (hc : c.count ≠ 0) (hk : o ≠ p → kept o) :
    (callNative e f c.arguments).Meets (c.contract i kept s.machine) t (fun r t' _ =>
      t' = t ∧ c.Answers s.machine o p x r) s ∧
    (callNative e f c.arguments).Ends i t (fun r t' _ =>
      t' = t ∧ c.Answers s.machine o p x r) s :=
  ⟨meets_answers e kept hf ht hn hm hs hd hx hy hin hc hk,
    ends_answers e hf ht hn hm hs hd hx hy hin hc⟩

open CoreLibrary ClassTable

def bytesRecord : Class := arrayRecord ⟨"[B"⟩ (.base .byte) none

def booleansRecord : Class := arrayRecord ⟨"[Z"⟩ (.base .boolean) none

theorem closed_flags :
    Closed [library] (register booleansRecord (register bytesRecord records).2).2 := by
  refine closed_register (closed_register (closed_records []) ?_) ?_
  · exact ⟨_, _, rfl, rfl, links_arraySupers _⟩
  · exact ⟨_, _, rfl, rfl, (links_arraySupers _).mono (extends_register _ _)⟩

def machineOfArrays : Machine :=
  let m := { Machine.create [] .standard .standard .sound .sound (.ofVerbosity none) with
    classes := (register booleansRecord (register bytesRecord records).2).2 }
  let m := (m.alloc (.ofStorage bytesRecord (.new (.base .byte) 1)) 1).2
  let m := (m.alloc (.ofStorage booleansRecord (.new (.base .boolean) 1)) 1).2
  (m.alloc (.ofStorage charsRecord (.new (.base .char) 1)) 2).2

theorem sound_machineOfArrays : machineOfArrays.Sound := by
  have array {m : Machine} (hm : m.Sound) {c : Class} {t : FieldType} (bytes : Nat)
      (hc : m.Has c) (ht : c.componentType? = some t) :
      (m.alloc (.ofStorage c (.new t 1)) bytes).2.Sound :=
    hm.deed (.array bytes hc (Machine.holds_new ht 1))
  refine array (array (array ⟨⟨[], rfl⟩, closed_flags, ?_, ?_⟩ 1 ?_ rfl) 1 ?_ rfl) 2 ?_ rfl
  · intro o object h
    cases h
  · intro o object x h
    cases h
  all_goals rfl

theorem copies_respect_component_types_of_characters :
    let c : ArrayCopy := ⟨some ⟨2⟩, 0, some ⟨0⟩, 0, 1⟩
    let s : Scene := ⟨machineOfArrays, []⟩
    s.machine.componentType? ⟨2⟩ = some (.base .char) ∧
    s.machine.componentType? ⟨0⟩ = some (.base .byte) ∧
    (callNative (.bounded 1) arrayCopying c.arguments).Ends 1 (.start 1 "main") (fun r t' _ =>
      t' = .start 1 "main" ∧ ∃ cause, r = .error (.raise cause) ∧ cause.condition = .arrayStore)
      s := by
  intro c s
  refine ⟨rfl, rfl, ?_⟩
  have h := (copies_respect_component_types (i := 1) (t := .start 1 "main") (s := s)
    (c := c) (.bounded 1) (fun _ => True) (f := arrayCopying) rfl rfl (by decide)
    sound_machineOfArrays rfl rfl rfl rfl (by decide) (by decide) fun _ => trivial).2
  have hno : ¬ c.Compatible s.machine ⟨2⟩ ⟨0⟩ (.new (.base .char) 1) := by
    intro h
    cases h with
    | base source dest h =>
      cases source
      cases dest
      cases h
    | references source _ ht =>
      cases source
      cases ht
  refine h.mono fun r t' s' hr => ⟨hr.1, ?_⟩
  cases r with
  | ok v => exact absurd hr.2.2 hno
  | error trap =>
    obtain ⟨-, cause, rfl, hcause⟩ := hr.2
    exact ⟨cause, rfl, hcause⟩

theorem bytes_are_copied_to_booleans :
    let c : ArrayCopy := ⟨some ⟨0⟩, 0, some ⟨1⟩, 0, 1⟩
    let s : Scene := ⟨machineOfArrays, []⟩
    let x : ArrayStorage := .new (.base .byte) 1
    let y : ArrayStorage := .new (.base .boolean) 1
    s.machine.Sound ∧
    (s.machine.storage? ⟨0⟩ = .ok x ∧ s.machine.componentType? ⟨0⟩ = some (.base .byte)) ∧
    (s.machine.storage? ⟨1⟩ = .ok y ∧ s.machine.componentType? ⟨1⟩ = some (.base .boolean)) ∧
    c.Within x y ∧ c.count ≠ 0 ∧
    (callNative (.bounded 1) arrayCopying c.arguments).Ends 1 (.start 1 "main")
      (fun r _ _ => r = .ok none) s := by
  intro c s x y
  have hm := sound_machineOfArrays
  refine ⟨hm, ⟨rfl, rfl⟩, ⟨rfl, rfl⟩, by decide, by decide, ?_⟩
  have h := ends_answers (i := 1) (t := .start 1 "main") (s := s) (c := c) (.bounded 1)
    (f := arrayCopying) rfl rfl (by decide) hm rfl rfl rfl rfl (by decide) (by decide)
  have hboth : c.Compatible s.machine ⟨0⟩ ⟨1⟩ x := .base rfl rfl rfl
  refine h.mono fun r t' s' hr => ?_
  cases r with
  | ok v => rw [hr.2.1]
  | error trap => exact absurd hboth hr.2.1

end ArrayCopy

end BytecodeMachine
