import BytecodeMachine.Monitor

namespace BytecodeMachine

namespace Monitor

variable {m m' : Monitor} {t : Nat}

def tickets (m : Monitor) : List Nat := m.waiters.map (·.ticket)

def marked (m : Monitor) : List Nat := (m.waiters.filter (·.notified)).map (·.ticket)

theorem isNotified_iff : m.isNotified t ↔ t ∈ m.marked := by
  simp only [isNotified, marked, List.any_eq_true, List.mem_map, List.mem_filter,
    Bool.and_eq_true, decide_eq_true_eq]
  exact exists_congr fun w => by grind

theorem marked_sublist (m : Monitor) : m.marked.Sublist m.tickets :=
  List.filter_sublist.map _

structure IsLongest (m : Monitor) (t : Nat) : Prop where
  mem : t ∈ m.tickets
  unmarked : t ∉ m.marked
  first : ∀ a ∈ m.tickets, a ∉ m.marked → t ≤ a

theorem tickets_park (m : Monitor) : m.park.tickets = m.tickets ++ [m.nextTicket] := by
  simp [tickets, park]

theorem marked_park (m : Monitor) : m.park.marked = m.marked := by
  simp [marked, park]

theorem tickets_leave (m : Monitor) (t : Nat) :
    (m.leave t).tickets = m.tickets.filter (· ≠ t) := by
  simp [tickets, leave, List.filter_map, Function.comp_def]

theorem mem_marked_leave {a : Nat} : a ∈ (m.leave t).marked ↔ a ∈ m.marked ∧ a ≠ t := by
  simp only [marked, leave, List.mem_map, List.mem_filter]
  constructor
  · rintro ⟨w, ⟨⟨hw, ht⟩, hn⟩, rfl⟩
    exact ⟨⟨w, ⟨hw, hn⟩, rfl⟩, by simpa using ht⟩
  · rintro ⟨⟨w, ⟨hw, hn⟩, rfl⟩, ht⟩
    exact ⟨w, ⟨⟨hw, by simpa using ht⟩, hn⟩, rfl⟩

def mark (m : Monitor) (all : Bool) : Monitor :=
  { m with waiters := if all then markAll m.waiters else markFirst m.waiters }

theorem notify?_eq_mark (h : m.isHeldBy t) (all : Bool) : m.notify? t all = some (m.mark all) := by
  simp [notify?, h, mark]

theorem tickets_markFirst (ws : List Waiter) :
    (markFirst ws).map (·.ticket) = ws.map (·.ticket) := by
  induction ws with
  | nil => rfl
  | cons w ws ih =>
    simp only [markFirst]
    split <;> simp [ih]

theorem tickets_mark (m : Monitor) (all : Bool) : (m.mark all).tickets = m.tickets := by
  cases all with
  | true => simp [tickets, mark, markAll, Function.comp_def]
  | false => exact tickets_markFirst m.waiters

theorem marked_mark_all (m : Monitor) : (m.mark true).marked = m.tickets := by
  have h (ws : List Waiter) : (markAll ws).filter (·.notified) = markAll ws :=
    List.filter_eq_self.2 (by simp [markAll])
  simp only [marked, tickets, mark, if_true, h]
  simp [markAll, Function.comp_def]

theorem mem_marked_mark_first (hs : m.tickets.Pairwise (· < ·)) :
    t ∈ (m.mark false).marked ↔ t ∈ m.marked ∨ m.IsLongest t := by
  have hl (m : Monitor) : m.IsLongest t ↔ t ∈ m.tickets ∧ t ∉ m.marked ∧
      ∀ a ∈ m.tickets, a ∉ m.marked → t ≤ a :=
    ⟨fun h => ⟨h.mem, h.unmarked, h.first⟩, fun h => ⟨h.1, h.2.1, h.2.2⟩⟩
  rw [hl]
  obtain ⟨owner, count, ws, next⟩ := m
  simp only [tickets, marked, mark, Bool.false_eq_true, if_false] at hs ⊢
  induction ws with
  | nil => simp [markFirst]
  | cons w ws ih =>
    obtain ⟨hw, hs⟩ := List.pairwise_cons.1 hs
    have hm : w.ticket ∉ (ws.filter (·.notified)).map (·.ticket) := fun h =>
      Nat.lt_irrefl _ (hw _ ((List.filter_sublist.map _).subset h))
    cases hn : w.notified with
    | true =>
      simp only [markFirst, hn, if_true, List.filter_cons, List.map_cons, List.mem_cons, ih hs]
      grind
    | false =>
      simp only [markFirst, hn, Bool.false_eq_true, if_false, if_true, List.filter_cons,
        List.map_cons, List.mem_cons]
      grind

end Monitor

structure Tally where
  arrivals : List Nat
  marks : List Nat

namespace Tally

open Monitor

def count (m m' : Monitor) (l : Tally) : Tally where
  arrivals := l.arrivals ++ m'.tickets.filter (· ∉ m.tickets)
  marks := l.marks ++ m'.marked.filter (· ∉ m.marked)

theorem marks_count_leave (l : Tally) (m : Monitor) (t : Nat) :
    (l.count m (m.leave t)).marks = l.marks := by
  simpa [count] using fun a hi => (mem_marked_leave.1 hi).1

structure Agrees (l : Tally) (m : Monitor) : Prop where
  increasing : l.arrivals.Pairwise (· < ·)
  below : ∀ a ∈ l.arrivals, a < m.nextTicket
  waiting : m.tickets.Sublist l.arrivals
  marked : ∀ a ∈ m.tickets, a ∈ m.marked ↔ a ∈ l.marks
  nodup : l.marks.Nodup
  arrived : ∀ a ∈ l.marks, a ∈ l.arrivals

structure Passes (l l' : Tally) (m m' : Monitor) : Prop where
  agrees : l'.Agrees m'
  arrived : ∀ a ∈ l.arrivals, a ∈ l'.arrivals
  gone : ∀ a ∈ l.arrivals, a ∉ m.tickets → a ∉ m'.tickets ∧ (a ∈ l'.marks ↔ a ∈ l.marks)

variable {l : Tally} {m m' : Monitor} {t : Nat}

namespace Agrees

theorem tickets_increasing (h : l.Agrees m) : m.tickets.Pairwise (· < ·) :=
  h.increasing.sublist h.waiting

theorem next_not_mem (h : l.Agrees m) : m.nextTicket ∉ l.arrivals :=
  fun hn => Nat.lt_irrefl _ (h.below _ hn)

theorem nodup_count (h : l.Agrees m) (hs : m'.marked.Sublist l.arrivals)
    (hm : ∀ a ∈ m'.marked, a ∉ m.marked → a ∈ m.tickets) : (l.count m m').marks.Nodup := by
  refine List.nodup_append.2 ⟨h.nodup, ?_, ?_⟩
  · exact ((h.increasing.imp Nat.ne_of_lt).sublist hs).filter _
  · rintro a ha _ hn rfl
    obtain ⟨hn, hu⟩ := List.mem_filter.1 hn
    have hu : a ∉ m.marked := by simpa using hu
    exact hu ((h.marked a (hm a hn hu)).2 ha)

theorem mark (h : l.Agrees m) (ht : m'.tickets = m.tickets) (hm : ∀ a ∈ m.marked, a ∈ m'.marked)
    (hn : m'.nextTicket = m.nextTicket) : l.Passes (l.count m m') m m' := by
  have ha : (l.count m m').arrivals = l.arrivals := by
    simp [count, ht]
  have hs (a : Nat) (h : a ∈ m'.marked) : a ∈ m.tickets := ht ▸ m'.marked_sublist.subset h
  have hw : m'.tickets.Sublist l.arrivals := ht ▸ h.waiting
  constructor
  case agrees =>
    refine ⟨ha ▸ h.increasing, ?_, ha ▸ hw, ?_, ?_, ?_⟩
    · rw [ha, hn]
      exact h.below
    · intro a hi
      have := h.marked a (ht ▸ hi)
      have := hm a
      simp only [count, List.mem_append, List.mem_filter, decide_eq_true_eq]
      grind
    · exact h.nodup_count (m'.marked_sublist.trans hw) fun a hi _ => hs a hi
    · intro a hi
      rw [ha]
      rcases List.mem_append.1 hi with hi | hi
      · exact h.arrived a hi
      · exact h.waiting.subset (hs a (List.mem_filter.1 hi).1)
  case arrived => exact fun a hi => ha.symm ▸ hi
  case gone =>
    intro a _ hg
    refine ⟨ht ▸ hg, ?_⟩
    simp only [count, List.mem_append, List.mem_filter, or_iff_left_iff_imp]
    exact fun hi => absurd (hs a hi.1) hg

theorem park (h : l.Agrees m) : l.Passes (l.count m m.park) m m.park := by
  have hn : m.nextTicket ∉ m.tickets := fun hi => h.next_not_mem (h.waiting.subset hi)
  have ha : (l.count m m.park).arrivals = l.arrivals ++ [m.nextTicket] := by
    simp [count, tickets_park, List.filter_append, hn]
  have hm : (l.count m m.park).marks = l.marks := by
    simp [count, marked_park]
  constructor
  case agrees =>
    refine ⟨?_, ?_, ?_, ?_, hm ▸ h.nodup, ?_⟩
    · rw [ha, List.pairwise_append]
      exact ⟨h.increasing, List.pairwise_singleton .., fun a hi b hb => by
        rw [List.mem_singleton.1 hb]
        exact h.below a hi⟩
    · rw [ha]
      intro a hi
      rcases List.mem_append.1 hi with hi | hi
      · exact Nat.lt_succ_of_lt (h.below a hi)
      · rw [List.mem_singleton.1 hi]
        exact Nat.lt_succ_self _
    · rw [ha, tickets_park]
      exact h.waiting.append_right _
    · intro a hi
      rw [marked_park, hm]
      rcases List.mem_append.1 (tickets_park m ▸ hi) with hi | hi
      · exact h.marked a hi
      · rw [List.mem_singleton.1 hi]
        exact iff_of_false (fun hk => hn (m.marked_sublist.subset hk))
          fun hk => h.next_not_mem (h.arrived _ hk)
    · rw [ha, hm]
      exact fun a hi => List.mem_append_left _ (h.arrived a hi)
  case arrived =>
    rw [ha]
    exact fun a hi => List.mem_append_left _ hi
  case gone =>
    intro a hi hg
    rw [tickets_park, hm, List.mem_append, List.mem_singleton]
    refine ⟨?_, Iff.rfl⟩
    rintro (hk | rfl)
    · exact hg hk
    · exact h.next_not_mem hi

theorem leave (h : l.Agrees m) (t : Nat) : l.Passes (l.count m (m.leave t)) m (m.leave t) := by
  have hs (a : Nat) (hi : a ∈ (m.leave t).tickets) : a ∈ m.tickets :=
    (List.mem_filter.1 (tickets_leave m t ▸ hi)).1
  have ha : (l.count m (m.leave t)).arrivals = l.arrivals := by
    simpa [count] using hs
  have hm := l.marks_count_leave m t
  constructor
  case agrees =>
    refine ⟨ha ▸ h.increasing, ha ▸ h.below, ?_, ?_, hm ▸ h.nodup, ?_⟩
    · rw [ha, tickets_leave]
      exact List.filter_sublist.trans h.waiting
    · intro a hi
      rw [tickets_leave, List.mem_filter] at hi
      rw [mem_marked_leave, hm, ← h.marked a hi.1]
      exact and_iff_left (by simpa using hi.2)
    · rw [ha, hm]
      exact h.arrived
  case arrived => exact fun a hi => ha.symm ▸ hi
  case gone =>
    intro a _ hg
    rw [hm]
    exact ⟨fun hi => hg (hs a hi), Iff.rfl⟩

end Agrees

end Tally

end BytecodeMachine
