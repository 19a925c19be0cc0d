import BytecodeMachine.Proofs.Identities.Hands

namespace BytecodeMachine

variable {α β : Type}

namespace Machine

structure Registers (m m' : Machine) : Prop where
  classObjects : ∀ n o, m.classObjects.get? n = some o → m'.classObjects.get? n = some o
  interned : ∀ text o, m.interned.get? text = some o → m'.interned.get? text = some o

variable {m m' m1 m2 m3 : Machine} {n : ClassName} {text : String} {o : ObjectId}

theorem Registers.refl (m : Machine) : m.Registers m := ⟨fun _ _ h => h, fun _ _ h => h⟩

theorem Registers.trans (h : m1.Registers m2) (h' : m2.Registers m3) : m1.Registers m3 where
  classObjects n o hn := h'.classObjects n o (h.classObjects n o hn)
  interned text o ht := h'.interned text o (h.interned text o ht)

theorem Retains.registers (h : m.Retains m') : m.Registers m' where
  classObjects _ _ hn := h.classObjects ▸ hn
  interned _ _ ht := h.interned ▸ ht

theorem get?_enroll (n : ClassName) (o : ObjectId) (m : Machine) :
    (m.enroll n o).2.classObjects.get? n = some (m.enroll n o).1 := by
  change (m.classObjects.enter n o).2.get? n = _
  rw [ClassObjects.get?_enter, if_pos rfl]
  rfl

theorem interned_keep (text : String) (o : ObjectId) (m : Machine) (text' : String) :
    (m.keep text o).2.interned.get? text' =
      if text = text' then some ((m.interned.get? text).getD o) else m.interned.get? text' :=
  Entries.get?_put ..

theorem registers_enroll (n : ClassName) (o : ObjectId) (m : Machine) :
    m.Registers (m.enroll n o).2 where
  classObjects n' p hp := by
    change (m.classObjects.enter n o).2.get? n' = _
    rw [ClassObjects.get?_enter]
    split
    · rename_i hn
      subst hn
      rw [hp, Option.getD_some]
    · exact hp
  interned _ _ h := h

theorem registers_keep (text : String) (o : ObjectId) (m : Machine) :
    m.Registers (m.keep text o).2 where
  classObjects _ _ h := h
  interned text' p hp := by
    rw [interned_keep]
    split
    · rename_i ht
      subst ht
      rw [hp, Option.getD_some]
    · exact hp

theorem Raises.registers {l l' : List Newborn} (h : m.Raises l m' l') : m.Registers m' := by
  cases h with
  | leave h => exact h.registers
  | make h => exact h.registers
  | enroll n o => exact registers_enroll n o m
  | keep text b => exact registers_keep text b.object m

end Machine

def Contract.tables (i : Nat) : Contract where
  thread := i
  rely s s' := s.machine.Registers s'.machine ∧ s'.machine.Orderly ∧ s'.machine.Mirrored
  guarantee s s' := s.machine.Registers s'.machine

namespace Prog

variable {i : Nat} {s s' : Scene} {Q : α → Scene → Prop} {p q : Prog α}

theorem Raises.meets {P : α → Prop} {kept l : List Newborn} (h : p.Raises i P kept l) :
    p.Meets (.tables i) (fun a _ => P a) s := by
  induction p generalizing l s with
  | done a => exact h.2
  | step f next ih =>
    intro s' hs
    obtain ⟨-, l1, l2, -, h2, hn⟩ := h s'.machine hs.2.1
    exact ⟨h2.registers, ih _ hn⟩
  | sign x next ih =>
    exact fun s' _ => ⟨(Machine.leaves_pass x s'.machine).registers, ih h⟩
  | wait b next ih =>
    exact fun s' w m _ ha => ⟨(Blocker.leaves_attempt ha).registers, ih w (h w)⟩
  | starved => trivial

theorem Meets.tables_stable (h : p.Meets (.tables i) Q s)
    (hs : (Contract.tables i).rely s s') (hq : ∀ a, Q a s → Q a s') :
    p.Meets (.tables i) Q s' := by
  have again {s2 : Scene} (h2 : (Contract.tables i).rely s' s2) : (Contract.tables i).rely s s2 :=
    ⟨hs.1.trans h2.1, h2.2⟩
  cases p with
  | done a => exact hq a h
  | step f next => exact fun s2 h2 => h s2 (again h2)
  | sign x next => exact fun s2 h2 => h s2 (again h2)
  | wait b next => exact fun s2 w m h2 => h s2 w m (again h2)
  | starved => trivial

theorem Meets.tables_moves (h : p.Meets (.tables i) Q s) (hm : p.Moves i s q s')
    (hc : s.machine.Orderly) (hr : s.machine.Mirrored) :
    s.machine.Registers s'.machine ∧ q.Meets (.tables i) Q s' := by
  have here : (Contract.tables i).rely s s := ⟨.refl _, hc, hr⟩
  cases hm with
  | step f next => exact h s here
  | sign x next => exact h s here
  | wait next ha => exact h s _ _ here ha

end Prog

namespace Exec

variable {i : Nat} {t : Thread} {s : Scene} {x : Exec α} {P Q : α → Machine → Prop}

def Finds (i : Nat) (Q : α → Machine → Prop) : Post α :=
  fun r t s => t.id = i ∧ ∀ a, r = .ok a → Q a s.machine

theorem Finds.mono {r : Except Trap α} (h : Finds i P r t s)
    (hq : ∀ a m, P a m → Q a m) : Finds i Q r t s :=
  h.imp_right fun h a ha => hq a _ (h a ha)

theorem Raises.meets {P : α → Prop} (h : x.Raises i P) (ht : t.id = i) :
    x.Meets (.tables i) t (Finds i fun a _ => P a) s :=
  Prog.Raises.meets (h t ht)

theorem finds_bind {f : α → Exec β} {R : β → Machine → Prop}
    (hx : x.Meets (.tables i) t (Finds i P) s)
    (hf : ∀ a t' s', t'.id = i → P a s'.machine → (f a).Meets (.tables i) t' (Finds i R) s') :
    (x >>= f).Meets (.tables i) t (Finds i R) s := by
  refine meets_bind.2 (hx.mono fun r t' s' h => ?_)
  cases r with
  | error trap => exact ⟨h.1, nofun⟩
  | ok a => exact hf a t' s' h.1 (h.2 a rfl)

theorem finds_pure {a : α} (ht : t.id = i) (ha : Q a s.machine) :
    (Pure.pure a : Exec α).Meets (.tables i) t (Finds i Q) s := by
  refine meets_pure.2 ⟨ht, fun b hb => ?_⟩
  cases hb
  exact ha

theorem finds_act {f : Machine → α × Machine} (ht : t.id = i)
    (h : ∀ m : Machine, m.Orderly → m.Mirrored → s.machine.Registers m →
      m.Registers (f m).2 ∧ Q (f m).1 (f m).2) :
    (act f).Meets (.tables i) t (Finds i Q) s := by
  refine meets_lift.2 fun s' hs => ?_
  obtain ⟨hr, hq⟩ := h s'.machine hs.2.1 hs.2.2 hs.1
  refine ⟨hr, ht, fun b hb => ?_⟩
  cases hb
  exact hq

theorem finds_locked (hq : ∀ a m m', m.Registers m' → Q a m → Q a m')
    (hx : ∀ s', s.machine.Registers s'.machine → x.Meets (.tables i) t (Finds i Q) s') :
    (locked x).Meets (.tables i) t (Finds i Q) s := by
  refine meets_locked.2 fun s1 w m hs1 ha => ?_
  have hr1 := (Blocker.leaves_attempt ha).registers
  refine ⟨hr1, ?_⟩
  change x.Meets _ t (fun r t' => (Prog.update Machine.unlock).Meets _ fun _ => Finds i Q r t') _
  refine (hx (s1.become m) (hs1.1.trans hr1)).mono fun r t' s2 h2 s3 hs3 => ?_
  have hr3 := (Machine.leaves_unlock s3.machine).registers
  exact ⟨hr3, h2.1, fun a ha => hq a _ _ (hs3.1.trans hr3) (h2.2 a ha)⟩

end Exec

end BytecodeMachine
