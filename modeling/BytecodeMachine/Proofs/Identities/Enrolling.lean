import BytecodeMachine.Proofs.Upkeep

namespace BytecodeMachine

namespace Machine

variable {m m' m1 m2 m3 : Machine}

structure Enrolls (m m' : Machine) : Prop where
  libraries : m'.libraries = m.libraries
  loaded : ClassTable.Loaded m.libraries m.classes m'.classes
  named : ∀ n o, m'.classObjects.get? n = some o →
    m.classObjects.get? n = some o ∨ ∃ c, ClassTable.Loads m.libraries n c

structure Enrolled (m : Machine) : Prop where
  closed : ClassTable.Closed m.libraries m.classes
  loads : ∀ n o, m.classObjects.get? n = some o → ∃ c, ClassTable.Loads m.libraries n c

theorem Abides.enrolls (h : m.Abides m') : m.Enrolls m' :=
  ⟨h.libraries, h.loaded, fun _ _ hn => .inl (h.classObjects ▸ hn)⟩

theorem Enrolls.trans (h : m1.Enrolls m2) (h' : m2.Enrolls m3) : m1.Enrolls m3 where
  libraries := h'.libraries.trans h.libraries
  loaded := h.loaded.trans (h.libraries ▸ h'.loaded)
  named n o hn := by
    rcases h'.named n o hn with hold | hnew
    · exact h.named n o hold
    · exact .inr (h.libraries ▸ hnew)

theorem enrolls_enroll {n : ClassName} {c : Class} (hn : ClassTable.Loads m.libraries n c)
    (o : ObjectId) : m.Enrolls (m.enroll n o).2 where
  libraries := rfl
  loaded := .refl
  named n' p hp := by
    change (m.classObjects.enter n o).2.get? n' = some p at hp
    rw [ClassObjects.get?_enter] at hp
    split at hp
    · rename_i heq
      exact .inr ⟨c, heq ▸ hn⟩
    · exact .inl hp

theorem Enrolled.enrolls (h : m.Enrolled) (he : m.Enrolls m') : m'.Enrolled where
  closed := he.libraries ▸ he.loaded.closed h.closed
  loads n o hn := by
    rw [he.libraries]
    exact (he.named n o hn).elim (h.loads n o) id

theorem upkept_enrolls : Upkept Enrolls where
  leaves h := h.toAbides.enrolls
  trans h h' := h.trans h'
  libraries h := h.libraries
  loaded h := h.loaded
  enroll hn o := enrolls_enroll hn o
  keep _ _ _ := ⟨rfl, .refl, fun _ _ hn => .inl hn⟩
  report _ _ _ _ := ⟨rfl, .refl, fun _ _ hn => .inl hn⟩

theorem enrolled_empty (hc : ClassTable.Closed m.libraries m.classes)
    (ho : m.classObjects = .empty) : m.Enrolled := by
  refine ⟨hc, fun n o hn => ?_⟩
  rw [ho] at hn
  cases hn

theorem Enrolled.enrolls_run {e : Engine} (he : e.Woven) {s s' : Scene} {c : Callers Inquiry Answer}
    (h : s.machine.Enrolled)
    (hr : Callers.Run (Exec.ask e) Abides (.idle, s) (c, s')) : s.machine.Enrolls s'.machine := by
  refine (Callers.Along.run (R := Enrolls) (Q := fun _ _ _ => True) upkept_enrolls
    (fun _ _ _ _ _ _ => trivial) (fun _ _ he h => Enrolled.enrolls h he) (fun _ _ h => h.enrolls)
    (fun q t s hs => ?_) h Callers.along_idle hr).2
  exact ((Exec.woven_ask he q).meets_along upkept_enrolls ⟨rfl, rfl, hs.closed⟩).mono
    fun _ _ _ _ => trivial

end Machine

end BytecodeMachine
