import BytecodeMachine.Proofs.Identities.Finding

namespace BytecodeMachine

variable {α : Type}

-- What may ask for a string by its text, or for a class object by its class. What else a thread does is
-- among it, too.
inductive Inquiry where
  | intern (text : String)
  | internOf (o : ObjectId)
  | constant (c : Constant)
  | classObject (n : ClassName)
  | className (o : ObjectId)
  | native (m : Method) (n : Native) (arguments : List NativeValue)
  | demand (d : Demand)

inductive Answer where
  | text (text : String) (o : ObjectId)
  | klass (n : ClassName) (o : ObjectId)
  | name (o : ObjectId) (n : Option ClassName)
  | other

namespace Answer

def ofConstant : Constant → Value → Answer
  | .string s, .ref (some o) => text s o
  | .klass n, .ref (some o) => klass n o
  | _, _ => other

def ofReturn : NativeValue → Option Value → Answer
  | .klass n, some (.ref (some o)) => klass n o
  | _, _ => other

def given : Answer → NativeValue
  | text _ o | klass _ o => .object o
  | name _ (some n) => .klass n
  | name _ none | other => .null

def Holds : Answer → Machine → Prop
  | text s o, m => m.interned.get? s = some o
  | klass n o, m => m.classObjects.get? n = some o
  | name o n, m => ∀ c, n = some c → m.classObjects.get? c = some o
  | other, _ => True

def Minds : Answer → Machine → Prop
  | name o n, m => ∀ c, m.classObjects.get? c = some o → n = some c
  | _, _ => True

theorem minds_ofConstant (c : Constant) (v : Value) (m : Machine) : (ofConstant c v).Minds m := by
  unfold ofConstant
  split <;> trivial

theorem minds_ofReturn (v : NativeValue) (w : Option Value) (m : Machine) :
    (ofReturn v w).Minds m := by
  unfold ofReturn
  split <;> trivial

theorem Holds.registers {m m' : Machine} {a : Answer} (h : a.Holds m) (hr : m.Registers m') :
    a.Holds m' := by
  cases a with
  | text s o => exact hr.interned s o h
  | klass n o => exact hr.classObjects n o h
  | name o n => exact fun c hc => hr.classObjects c o (h c hc)
  | other => trivial

theorem Holds.inj_text {m : Machine} {s s' : String} {o o' : ObjectId}
    (hinj : ∀ s s' o, m.interned.get? s = some o → m.interned.get? s' = some o → s = s')
    (h : (text s o).Holds m) (h' : (text s' o').Holds m) : o = o' ↔ s = s' := by
  constructor
  · rintro rfl
    exact hinj s s' o h h'
  · rintro rfl
    exact Option.some.inj (Eq.trans (Eq.symm h) h')

theorem Holds.inj_klass {m : Machine} (hm : m.Mirrored) {n n' : ClassName} {o o' : ObjectId}
    (h : (klass n o).Holds m) (h' : (klass n' o').Holds m) : o = o' ↔ n = n' := by
  constructor
  · rintro rfl
    exact Option.some.inj ((hm.get? h).symm.trans (hm.get? h'))
  · rintro rfl
    exact Option.some.inj (Eq.trans (Eq.symm h) h')

end Answer

namespace Exec

def ask (e : Engine) : Inquiry → Exec Answer
  | .intern text => do pure (.text text (← intern e text))
  | .internOf o => do
      let text ← stringValue o
      pure (.text text (← intern e text))
  | .constant c => do
      loadConstant e c
      pure (.ofConstant c (← inFrame .pop))
  | .classObject n => do pure (.klass n (← classObject e n))
  | .className o => do pure (.name o (← classNameOf? o))
  | .native m n arguments => do
      let v ← applyNative e n arguments
      pure (.ofReturn v (← takeNative e m v))
  | .demand d => do
      answer e d
      pure .other

theorem builtin_intern (e : Engine) (o : ObjectId) :
    builtin e .intern [.object o] = (do
      let a ← ask e (.internOf o)
      pure a.given : Exec NativeValue) := by
  simp only [builtin, ask, bind_assoc, pure_bind]
  rfl

variable {e : Engine} {i : Nat} {t : Thread} {s : Scene}

theorem woven_ask (he : e.Woven) (q : Inquiry) {P : ClassName → Prop} : (ask e q).Woven P i := by
  have intern (text : String) : (Exec.intern e text).Woven P i := by
    have h : Built e .every .host [] (Exec.intern e text) := .intern text
    exact h.woven he
  cases q with
  | intern text => exact .bind (intern text) fun _ => .pure _
  | internOf o =>
    have h : Built e .every .host [] (stringValue o) := .stringValue o
    exact .bind (h.woven he) fun text => .bind (intern text) fun _ => .pure _
  | constant c =>
    have h : Built e .every .call [] (loadConstant e c) := .loadConstant c
    exact .bind (h.woven he) fun _ => .bind (.inFrame _) fun _ => .pure _
  | classObject n =>
    have h : Built e .every .host [] (classObject e n) := .classObject n
    exact .bind (h.woven he) fun _ => .pure _
  | className o =>
    have h : Built e .every .host [] (classNameOf? o) := .classNameOf? o
    exact .bind (h.woven he) fun _ => .pure _
  | native m n arguments =>
    have h : Built e .every .host [] (applyNative e n arguments) := .applyNative n arguments
    have hr (v : NativeValue) : Built e .every .host [] (takeNative e m v) := .takeNative m v
    exact .bind (h.woven he) fun v => .bind ((hr v).woven he) fun _ => .pure _
  | demand d => exact .bind (woven_answer he d) fun _ => .pure _

theorem finds_woven {x : Exec α} (h : x.Woven (fun _ => True) i) (ht : t.id = i) :
    x.Meets (.tables i) t (Finds i fun _ _ => True) s :=
  h.raises.meets ht

theorem finds_intern (he : e.Woven) (text : String) (ht : t.id = i) :
    (intern e text).Meets (.tables i) t
      (Finds i fun o m => m.interned.get? text = some o) s := by
  refine finds_locked (fun o m m' hr => hr.interned text o) fun s1 _ => ?_
  refine finds_bind (P := fun r m => r = m.interned.get? text)
    (finds_act ht fun m _ _ _ => ⟨.refl m, rfl⟩) fun r t1 s1 ht1 hr => ?_
  cases r with
  | some o => exact finds_pure ht1 hr.symm
  | none =>
    have hn : Built e .every .host [] (newString e text) := .newString text
    refine finds_bind (finds_woven (hn.woven he) ht1) fun o t2 s2 ht2 _ => ?_
    refine finds_act ht2 fun m _ _ _ => ⟨Machine.registers_keep text o m, ?_⟩
    rw [Machine.interned_keep, if_pos rfl]
    rfl

theorem finds_classObject (he : e.Woven) (n : ClassName) (ht : t.id = i) :
    (classObject e n).Meets (.tables i) t
      (Finds i fun o m => m.classObjects.get? n = some o) s := by
  refine finds_locked (fun o m m' hr => hr.classObjects n o) fun s1 _ => ?_
  refine finds_bind (P := fun r m => r = m.classObjects.get? n)
    (finds_act ht fun m _ _ _ => ⟨.refl m, rfl⟩) fun r t1 s1 ht1 hr => ?_
  cases r with
  | some o => exact finds_pure ht1 hr.symm
  | none =>
    have hl (n : ClassName) : Built e .every .host [] (loadClass n) := .loadClass n
    refine finds_bind (finds_woven ((hl n).woven he) ht1) fun _ t2 s2 ht2 _ => ?_
    refine finds_bind (finds_woven ((hl .klass).woven he) ht2) fun c t3 s3 ht3 _ => ?_
    refine finds_bind (finds_woven (he.setUp _ i c) ht3) fun _ t4 s4 ht4 _ => ?_
    have hn : Built e .every .host [] (newObject c) := .newObject c
    refine finds_bind (finds_woven (hn.woven he) ht4) fun o t5 s5 ht5 _ => ?_
    exact finds_act ht5 fun m _ _ _ => ⟨Machine.registers_enroll n o m, Machine.get?_enroll n o m⟩

theorem finds_classNameOf? (o : ObjectId) (ht : t.id = i) :
    (classNameOf? o).Meets (.tables i) t (Finds i fun n m =>
      (Answer.name o n).Holds m ∧ (Answer.name o n).Minds s.machine) s := by
  refine finds_locked (fun n m m' hr h => ⟨h.1.registers hr, h.2⟩) fun s1 hs1 => ?_
  refine finds_act ht fun m _ hm hr => ⟨.refl m, fun c hc => ?_, fun c hc => ?_⟩
  · exact (hm.inverse c o).1 hc
  · exact hm.get? ((hs1.trans hr).classObjects c o hc)

theorem finds_push_pop {v : Value} {f : Value → Exec α} {Q : α → Machine → Prop} (ht : t.id = i)
    (h : ∀ t' : Thread, t'.id = i → (f v).Meets (.tables i) t' (Finds i Q) s) :
    (do
      push v
      f (← inFrame .pop) : Exec α).Meets (.tables i) t (Finds i Q) s := by
  rw [push, meets_bind]
  cases hf : t.frames with
  | nil => exact (meets_inFrame_nil hf).2 ⟨ht, nofun⟩
  | cons g rest =>
    refine (meets_inFrame_cons hf).2 ?_
    rw [show (FrameM.push v).run.run g = (.ok (), { g with stack := v :: g.stack }) from rfl, after_ok,
      meets_bind]
    exact (meets_inFrame_cons (f := { g with stack := v :: g.stack }) rfl).2 (h _ ht)

theorem finds_constant (he : e.Woven) (c : Constant) (m : Machine) (ht : t.id = i) :
    (ask e (.constant c)).Meets (.tables i) t (Finds i fun a m' => a.Holds m' ∧ a.Minds m) s := by
  have pushed (v : Value) {t1 : Thread} {s1 : Scene} (ht1 : t1.id = i)
      (h : (Answer.ofConstant c v).Holds s1.machine) : (do
        push v
        pure (.ofConstant c (← inFrame .pop)) : Exec Answer).Meets (.tables i) t1
          (Finds i fun a m' => a.Holds m' ∧ a.Minds m) s1 :=
    finds_push_pop ht1 fun t' ht' => finds_pure ht' ⟨h, Answer.minds_ofConstant c v m⟩
  cases c with
  | numeral n => exact pushed n.value ht trivial
  | string text =>
    rw [ask, loadConstant, bind_assoc]
    exact finds_bind (finds_intern he text ht) fun o t1 s1 ht1 ho => pushed (.object o) ht1 ho
  | klass n =>
    rw [ask, loadConstant, bind_assoc]
    have hc : (resolveClass n).Raises i fun c => c.name = n := by
      intro t ht
      exact Raises.resolve (Resolving.finds_resolveClass n t.context?) t ht
    refine finds_bind (hc.meets ht) fun c t1 s1 ht1 hn => ?_
    rw [bind_assoc]
    refine finds_bind (finds_classObject he c.name ht1) fun o t2 s2 ht2 ho => ?_
    exact pushed (.object o) ht2 (hn ▸ ho)

theorem finds_refuse {v : NativeValue} {t' : FieldType} {Q : α → Machine → Prop} (ht : t.id = i) :
    (refuseCrossing (fun m => v.shown m) t' : Exec α).Meets (.tables i) t (Finds i Q) s :=
  finds_bind (P := fun _ _ => True) (finds_act ht fun m _ _ _ => ⟨.refl m, trivial⟩)
    fun _ _ _ ht' _ => meets_fail.2 ⟨ht', nofun⟩

theorem finds_ofNative (he : e.Woven) (n : ClassName) (t' : FieldType) (ht : t.id = i) :
    (ofNative e (.klass n) t').Meets (.tables i) t
      (Finds i fun w m => ∃ o, w = .object o ∧ m.classObjects.get? n = some o) s := by
  have reference : (ofNativeReference e (.klass n) t').Meets (.tables i) t
      (Finds i fun w m => ∃ o, w = .object o ∧ m.classObjects.get? n = some o) s := by
    unfold ofNativeReference
    dsimp only
    split
    · refine finds_bind (finds_classObject he n ht) fun o t1 s1 ht1 ho => ?_
      exact finds_pure ht1 ⟨o, rfl, ho⟩
    · unfold ofNativeReference.boxed
      split
      · split
        · exact finds_bind (P := fun _ _ => False) (finds_refuse ht) fun _ _ _ _ h => h.elim
        · exact finds_refuse ht
      · exact finds_refuse ht
  cases t' with
  | base b => exact finds_refuse ht
  | object c => exact reference
  | array c => exact reference

theorem finds_takeNative (he : e.Woven) (m : Method) (v : NativeValue) (ht : t.id = i) :
    (takeNative e m v).Meets (.tables i) t (Finds i fun w m => (Answer.ofReturn v w).Holds m) s := by
  by_cases hv : ∃ n, v = .klass n
  · obtain ⟨n, rfl⟩ := hv
    unfold takeNative
    cases m.type.result with
    | none =>
      refine finds_bind (P := fun _ _ => True) (finds_act ht fun m _ _ _ => ⟨.refl m, trivial⟩) ?_
      exact fun _ _ _ ht' _ => meets_fail.2 ⟨ht', nofun⟩
    | some t' =>
      refine finds_bind (finds_ofNative he n t' ht) fun w t1 s1 ht1 hw => ?_
      obtain ⟨o, rfl, ho⟩ := hw
      exact finds_pure ht1 ho
  · have hr : Built e .every .host [] (takeNative e m v) := .takeNative m v
    refine (finds_woven (hr.woven he) ht).mono fun r t' s' h => h.mono fun w m _ => ?_
    cases v with
    | klass n => exact absurd ⟨n, rfl⟩ hv
    | _ => trivial

theorem finds_ask (he : e.Woven) (q : Inquiry) (ht : t.id = i) :
    (ask e q).Meets (.tables i) t (Finds i fun a m => a.Holds m ∧ a.Minds s.machine) s := by
  have interned (text : String) {t1 : Thread} {s1 : Scene} (ht1 : t1.id = i) :
      (do pure (.text text (← intern e text)) : Exec Answer).Meets (.tables i) t1
        (Finds i fun a m => a.Holds m ∧ a.Minds s.machine) s1 :=
    finds_bind (finds_intern he text ht1) fun o t2 s2 ht2 ho => finds_pure ht2 ⟨ho, trivial⟩
  cases q with
  | intern text => exact interned text ht
  | internOf o =>
    have h : Built e .every .host [] (stringValue o) := .stringValue o
    exact finds_bind (finds_woven (h.woven he) ht) fun text t1 s1 ht1 _ => interned text ht1
  | constant c => exact finds_constant he c s.machine ht
  | classObject n =>
    exact finds_bind (finds_classObject he n ht) fun o t1 s1 ht1 ho => finds_pure ht1 ⟨ho, trivial⟩
  | className o =>
    exact finds_bind (finds_classNameOf? o ht) fun n t1 s1 ht1 hn => finds_pure ht1 hn
  | native m n arguments =>
    have h : Built e .every .host [] (applyNative e n arguments) := .applyNative n arguments
    refine finds_bind (finds_woven (h.woven he) ht) fun v t1 s1 ht1 _ => ?_
    refine finds_bind (finds_takeNative he m v ht1) fun w t2 s2 ht2 hw => finds_pure ht2 ?_
    exact ⟨hw, Answer.minds_ofReturn v w s.machine⟩
  | demand d =>
    exact finds_bind (finds_woven (woven_answer he d) ht) fun _ t1 s1 ht1 _ =>
      finds_pure ht1 ⟨trivial, trivial⟩

end Exec

end BytecodeMachine
