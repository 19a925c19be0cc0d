import BytecodeMachine.Exec.Registry

namespace BytecodeMachine

namespace Machine

variable {i j : Nat} {m : Machine}

theorem record?_modifyRecord (i j : Nat) (f : ThreadRecord → ThreadRecord) (m : Machine) :
    (m.modifyRecord j f).record? i = if j = i then (m.record? i).map f else m.record? i := by
  simp only [record?, modifyRecord]
  induction m.threads with
  | nil => simp
  | cons e rest ih =>
    simp only [List.map_cons, Entries.get?_cons, apply_ite Prod.fst, ite_self, ih]
    by_cases he : e.1 = i
    · subst he
      by_cases hj : j = e.1 <;> simp [hj, eq_comm]
    · by_cases hj : j = i <;> simp [he, hj]

theorem mem_threadIds : i ∈ m.threadIds ↔ (m.record? i).isSome := by
  simp only [threadIds, record?, Entries.get?, Option.isSome_map, List.find?_isSome, List.mem_map,
    decide_eq_true_eq]

theorem record?_register (r : ThreadRecord) (m : Machine) :
    (m.register r).record? i = if r.id = i then some r else m.record? i :=
  Entries.get?_put r.id i r m.threads

def isInterrupted (m : Machine) (thread : Nat) : Bool :=
  (m.record? thread).any (·.interrupted)

theorem shouldTerminate_of_threads {m' : Machine} (h : m'.threads = m.threads) (i : Nat) :
    m'.shouldTerminate i = m.shouldTerminate i := by
  simp only [shouldTerminate, record?, h]

theorem isInterrupted_of_threads {m' : Machine} (h : m'.threads = m.threads) (i : Nat) :
    m'.isInterrupted i = m.isInterrupted i := by
  simp only [isInterrupted, record?, h]

@[simp] theorem shouldTerminate_setMonitor (o : ObjectId) (x : Monitor) (i : Nat) (m : Machine) :
    (m.setMonitor o x).shouldTerminate i = m.shouldTerminate i := rfl

@[simp] theorem isInterrupted_setMonitor (o : ObjectId) (x : Monitor) (i : Nat) (m : Machine) :
    (m.setMonitor o x).isInterrupted i = m.isInterrupted i := rfl

@[simp] theorem shouldTerminate_takeInterrupt (i j : Nat) (m : Machine) :
    (m.takeInterrupt j).2.shouldTerminate i = m.shouldTerminate i := by
  simp only [shouldTerminate, takeInterrupt, record?_modifyRecord]
  split <;> simp [Option.any_map]

@[simp] theorem isInterrupted_takeInterrupt_self (i : Nat) (m : Machine) :
    (m.takeInterrupt i).2.isInterrupted i = false := by
  simp only [isInterrupted, takeInterrupt, record?_modifyRecord, if_true, Option.any_map]
  cases m.record? i <;> rfl

theorem isInterrupted_takeInterrupt_of_ne (h : i ≠ j) (m : Machine) :
    (m.takeInterrupt j).2.isInterrupted i = m.isInterrupted i := by
  simp only [isInterrupted, takeInterrupt, record?_modifyRecord, if_neg (Ne.symm h)]

@[simp] theorem monitorOf_takeInterrupt (o : ObjectId) (i : Nat) (m : Machine) :
    (m.takeInterrupt i).2.monitorOf o = m.monitorOf o := rfl

end Machine

end BytecodeMachine
