import BytecodeMachine.Proofs.Bridge.Making
import BytecodeMachine.Proofs.Identities.Tables

namespace BytecodeMachine.Exec

open CoreLibrary ClassTable

variable {i k : Nat} {t : Thread} {s : Scene} {n : ClassName} {o : ObjectId}

theorem gives_newMirror (hs : s.machine.Serves t.id) {c : Class}
    (hc : (load s.machine.libraries [] n s.machine.classes).1 = .ok c)
    (hn : s.machine.classObjects.get? n = none) :
    Gives (do
      let _ ← loadClass n
      let c ← loadClass .klass
      (Engine.bounded (k + 2)).setUp c
      let o ← newObject c
      act (·.enroll n o)) i t
      (fun o m => s.machine.Continues t.id m ∧ m.classNameOf? o = some n) s := by
  refine (gives_loadClass hc).bind fun _ s1 h1 => ?_
  replace h1 := h1.2
  refine (gives_record (hs.continue h1.toContinues) (c := klassRecord) rfl).bind fun c s2 h2 => ?_
  obtain ⟨rfl, h2⟩ := h2
  replace h1 := h1.trans h2
  refine (setsUp_klass k i t s2 (hs.continue h1.toContinues)).bind fun _ s3 h3 => ?_
  replace h1 := h1.trans h3
  refine (gives_newObject _).bind fun o s4 h4 => gives_act.mono fun p m h => ?_
  obtain ⟨h4, hfresh, -⟩ := h4
  have htable : s4.machine.classObjects = s.machine.classObjects :=
    h4.classObjects.trans h1.classObjects
  have hnone : s4.machine.classObjects.get? n = none := by rw [htable, hn]
  have henroll := Machine.classNameOf?_enroll (o := o) hnone
  obtain ⟨rfl, rfl⟩ := Prod.ext_iff.1 h
  have ho : (s4.machine.enroll n o).1 = o := by
    change (s4.machine.classObjects.get? n).getD o = o
    rw [hnone, Option.getD_none]
  rw [ho]
  exact ⟨h1.toContinues.trans (h4.toContinues.trans ⟨rfl, .refl, rfl, rfl, rfl, rfl, rfl, rfl, id⟩), henroll⟩

theorem gives_classObject (hs : s.machine.Serves t.id) (hm : s.machine.Mirrored) {c : Class}
    (hc : (load s.machine.libraries [] n s.machine.classes).1 = .ok c) :
    (classObject (.bounded (k + 2)) n).Gives i t (fun o m =>
      s.machine.Continues t.id m ∧ m.classNameOf? o = some n) s := by
  refine gives_locked hs fun m1 h1 => gives_read.bind fun found s2 h2 => ?_
  obtain ⟨hfound, h2⟩ := h2
  change s2.machine = m1 at h2
  subst h2
  have hm2 : s2.machine.Mirrored := hm.bears (.of_heap h1.classObjects h1.heap)
  have unlocked {o : ObjectId} {m : Machine} (hc : s.machine.Continues t.id m)
      (ho : m.classNameOf? o = some n) : s.machine.Continues t.id m.unlock ∧
        m.unlock.classNameOf? o = some n := by
    have hu : m.Prepares t.id m.unlock := Machine.prepares_unlock m
    refine ⟨hc.trans hu.toContinues, ?_⟩
    rw [Machine.classNameOf?, hu.classObjects]
    exact ho
  change found = s2.machine.classObjects.get? n at hfound
  cases found with
  | some o => exact gives_pure (unlocked h1.toContinues (hm2.get? hfound.symm))
  | none =>
    have hs2 := hs.continue h1.toContinues
    have hc2 : (load s2.machine.libraries [] n s2.machine.classes).1 = .ok c := by
      have hclosed := hs2.closed
      rw [h1.libraries] at hclosed ⊢
      exact load_agree hs.closed hclosed hc
    refine (gives_newMirror hs2 hc2 hfound.symm).mono fun o m h => ?_
    exact unlocked (h1.toContinues.trans h.1) h.2

theorem gives_classNameOf? (hs : s.machine.Serves t.id) (o : ObjectId) :
    (classNameOf? o).Gives i t (fun r m => r = s.machine.classNameOf? o ∧
      s.machine.Prepares t.id m) s := by
  refine gives_locked hs fun m1 h1 => gives_read.mono fun r m h => ?_
  rw [h.1, h.2]
  refine ⟨?_, h1.trans (Machine.prepares_unlock m1)⟩
  change m1.classNameOf? o = s.machine.classNameOf? o
  rw [Machine.classNameOf?, h1.classObjects, Machine.classNameOf?]

end BytecodeMachine.Exec
