import BytecodeMachine.Proofs.Bridge.Standing
import BytecodeMachine.Proofs.Callers
import BytecodeMachine.Proofs.Identities.Inquiries
import BytecodeMachine.Proofs.Identities.Interning
import BytecodeMachine.Proofs.Initialization

namespace BytecodeMachine

-- Strings that are asked for are the same exactly if their texts are, and class objects exactly if their
-- names are. What an object is the class object of is known as soon as the object has been given out.
structure Canonical (replies : List (Reply Inquiry Answer)) : Prop where
  texts : ∀ r ∈ replies, ∀ r' ∈ replies, ∀ text text' o o', r.outcome = .ok (.text text o) →
    r'.outcome = .ok (.text text' o') → (o = o' ↔ text = text')
  classes : ∀ r ∈ replies, ∀ r' ∈ replies, ∀ n n' o o', r.outcome = .ok (.klass n o) →
    r'.outcome = .ok (.klass n' o') → (o = o' ↔ n = n')
  named : ∀ r ∈ replies, ∀ r' ∈ replies, ∀ n n' o o', r.outcome = .ok (.name o (some n)) →
    r'.outcome = .ok (.klass n' o') → (o = o' ↔ n = n')
  known : ∀ r ∈ replies, ∀ k, k < r.since → ∀ r', replies[k]? = some r' → ∀ n o x,
    r'.outcome = .ok (.klass n o) → r.outcome = .ok (.name o x) → x = some n

section Replies

variable {rs : List (Reply Inquiry Answer)} {k : Nat} {m m' : Machine}

def Knows (rs : List (Reply Inquiry Answer)) (k : Nat) (m : Machine) : Prop :=
  ∀ n, n < k → ∀ r, rs[n]? = some r → ∀ a, r.outcome = .ok a → a.Holds m

def Told (m : Machine) (outcome : Except Trap Answer) (m' : Machine) : Prop :=
  ∀ a, outcome = .ok a → a.Holds m' ∧ a.Minds m

theorem Told.registers {m1 : Machine} {outcome : Except Trap Answer} (h : Told m outcome m1)
    (hr : m1.Registers m') : Told m outcome m' :=
  fun a ha => ⟨(h a ha).1.registers hr, (h a ha).2⟩

theorem Knows.append (h : Knows rs k m) (hk : k ≤ rs.length) (r : Reply Inquiry Answer) :
    Knows (rs ++ [r]) k m := by
  intro n hn r' hr
  rw [List.getElem?_append_left (Nat.lt_of_lt_of_le hn hk)] at hr
  exact h n hn r' hr

structure Listed (rs : List (Reply Inquiry Answer)) (m : Machine) (r : Reply Inquiry Answer) :
    Prop where
  since : r.since ≤ rs.length
  told : ∃ m0, Knows rs r.since m0 ∧ Told m0 r.outcome m

theorem Listed.registers {r : Reply Inquiry Answer} (h : Listed rs m r) (hr : m.Registers m') :
    Listed rs m' r := by
  obtain ⟨m0, hk, ht⟩ := h.told
  exact ⟨h.since, m0, hk, ht.registers hr⟩

theorem Listed.append {r : Reply Inquiry Answer} (h : Listed rs m r) (r' : Reply Inquiry Answer) :
    Listed (rs ++ [r']) m r := by
  obtain ⟨m0, hk, ht⟩ := h.told
  refine ⟨?_, m0, hk.append h.since r', ht⟩
  rw [List.length_append]
  exact Nat.le_add_right_of_le h.since

end Replies

structure OpenCall.Answers (rs : List (Reply Inquiry Answer)) (i : Nat) (s : Scene)
    (p : OpenCall Inquiry Answer) : Prop where
  since : p.since ≤ rs.length
  meets : ∃ m, Knows rs p.since m ∧
    p.rest.Meets (.tables i) (fun r s => Told m r.1 s.machine) s

namespace OpenCall.Answers

variable {rs : List (Reply Inquiry Answer)} {s s' : Scene} {i : Nat} {p : OpenCall Inquiry Answer}

theorem stable (h : p.Answers rs i s) (hs : (Contract.tables i).rely s s') :
    p.Answers rs i s' := by
  obtain ⟨m, hk, hm⟩ := h.meets
  exact ⟨h.since, m, hk, hm.tables_stable hs fun _ ht => ht.registers hs.1⟩

theorem append (h : p.Answers rs i s) (r : Reply Inquiry Answer) : p.Answers (rs ++ [r]) i s := by
  obtain ⟨m, hk, hm⟩ := h.meets
  refine ⟨?_, m, hk.append h.since r, hm⟩
  rw [List.length_append]
  exact Nat.le_add_right_of_le h.since

theorem listed (h : p.Answers rs i s) {outcome : Except Trap Answer} {t : Thread}
    (hp : p.rest = .done (outcome, t)) : Listed rs s.machine ⟨i, p.call, p.since, outcome⟩ := by
  obtain ⟨m, hk, hm⟩ := h.meets
  rw [hp] at hm
  exact ⟨h.since, m, hk, hm⟩

end OpenCall.Answers

structure Callers.Registered (c : Callers Inquiry Answer) (s : Scene) : Prop where
  orderly : s.machine.Orderly
  mirrored : s.machine.Mirrored
  interns : s.machine.Interns
  hands : ∃ r, s.machine.InHands r ∧ s.machine.Unkept r ∧
    ∀ i p, c.pending i = some p → p.rest.Raises i (fun _ => True) [] (r i)
  pending : ∀ i p, c.pending i = some p → p.Answers c.replies i s
  replies : ∀ r ∈ c.replies, Listed c.replies s.machine r

namespace Callers.Registered

variable {c c' : Callers Inquiry Answer} {s s' : Scene} {i : Nat} {p : OpenCall Inquiry Answer}

theorem holds (h : c.Registered s) {r : Reply Inquiry Answer} (hr : r ∈ c.replies) {a : Answer}
    (ha : r.outcome = .ok a) : a.Holds s.machine := by
  obtain ⟨m, -, ht⟩ := (h.replies r hr).told
  exact (ht a ha).1

theorem call {e : Engine} (he : e.Woven) (h : c.Registered s) (q : Inquiry) (t : Thread) :
    (c.begin t.id q ((Exec.ask e q).on t)).Registered s := by
  obtain ⟨r, hr, hu, hp⟩ := h.hands
  refine ⟨h.orderly, h.mirrored, h.interns, ⟨r, hr, hu, fun j p hj => ?_⟩, fun j p hj => ?_, h.replies⟩
  · rcases pending_begin hj with ⟨rfl, rfl⟩ | ⟨-, hj⟩
    · have hq := (Exec.woven_ask he q).raises t rfl
      exact hq.mono List.nil_suffix fun _ _ => trivial
    · exact hp j p hj
  · rcases pending_begin hj with ⟨rfl, rfl⟩ | ⟨-, hj⟩
    · refine ⟨Nat.le_refl _, s.machine, fun n _ r hn a ha => h.holds (List.mem_of_getElem? hn) ha, ?_⟩
      exact Prog.Meets.mono (Exec.finds_ask he q rfl) fun _ _ hf => hf.2
    · exact h.pending j p hj

theorem move (h : c.Registered s) (hi : c.pending i = some p)
    {q : Prog (Except Trap Answer × Thread)} (hm : p.rest.Moves i s q s') :
    (c.goOn i p q).Registered s' := by
  obtain ⟨r, hr, hu, hp⟩ := h.hands
  obtain ⟨⟨horderly, -⟩, l1, l2, hl, hraises, hq⟩ := (hp i p hi).moves hm h.orderly
  obtain ⟨hmirrored, hr'⟩ := h.mirrored.raises hr hl hraises
  obtain ⟨hinterns, hu'⟩ := h.interns.raises hu hr hl hraises
  have hrely (j : Nat) : (Contract.tables j).rely s s' := ⟨hraises.registers, horderly, hmirrored⟩
  refine ⟨horderly, hmirrored, hinterns, ⟨_, hr', hu', fun j x hj => ?_⟩, fun j x hj => ?_,
    fun x hx => (h.replies x hx).registers hraises.registers⟩
  · rcases pending_goOn hj with ⟨rfl, rfl⟩ | ⟨hji, hj⟩
    · rw [Function.update_self]
      exact hq
    · rw [Function.update_of_ne hji]
      exact hp j x hj
  · rcases pending_goOn hj with ⟨rfl, rfl⟩ | ⟨hji, hj⟩
    · have hpending := h.pending j p hi
      obtain ⟨m, hk, hmeets⟩ := hpending.meets
      exact ⟨hpending.since, m, hk, (hmeets.tables_moves hm h.orderly h.mirrored).2⟩
    · exact (h.pending j x hj).stable (hrely j)

theorem reply (h : c.Registered s) (hi : c.pending i = some p) {outcome : Except Trap Answer}
    {t : Thread} (hp : p.rest = .done (outcome, t)) : (c.reply i p outcome).Registered s := by
  obtain ⟨r, hr, hu, hpending⟩ := h.hands
  refine ⟨h.orderly, h.mirrored, h.interns, ⟨r, hr, hu, fun j x hj => ?_⟩, fun j x hj => ?_,
    fun x hx => ?_⟩
  · exact hpending j x (pending_reply hj).2
  · exact (h.pending j x (pending_reply hj).2).append _
  · rcases List.mem_append.1 hx with hx | hx
    · exact (h.replies x hx).append _
    · rw [List.mem_singleton.1 hx]
      exact ((h.pending i p hi).listed hp).append _

theorem outside (h : c.Registered s) {m : Machine} (hm : s.machine.Abides m) :
    c.Registered (s.become m) := by
  have horderly := hm.orderly h.orderly
  have hmirrored := h.mirrored.bears hm.toBears
  obtain ⟨r, hr, hu, hp⟩ := h.hands
  refine ⟨horderly, hmirrored, h.interns.retains hm.toRetains, ⟨r, hr.bears hm.toBears, ?_, hp⟩, ?_, ?_⟩
  · exact fun i b hb text ht => hu i b hb text (hm.interned ▸ ht)
  · exact fun i p hi => (h.pending i p hi).stable ⟨hm.registers, horderly, hmirrored⟩
  · exact fun r hr => (h.replies r hr).registers hm.registers

theorem run {e : Engine} (he : e.Woven) (h : c.Registered s)
    (hr : Run (Exec.ask e) Machine.Abides (c, s) (c', s')) : c'.Registered s' := by
  generalize hx : (c', s') = x at hr
  induction hr generalizing c' s' with
  | refl =>
    cases hx
    exact h
  | tail _ hs ih =>
    subst hx
    cases hs with
    | call q t _ => exact (ih rfl).call he q t
    | move i hi hm => exact (ih rfl).move hi hm
    | reply i hi hp => exact (ih rfl).reply hi hp
    | outside hm => exact (ih rfl).outside hm

theorem canonical (h : c.Registered s) : Canonical c.replies where
  texts r hr r' hr' text text' o o' ho ho' :=
    (h.holds hr ho).inj_text h.interns.injective (h.holds hr' ho')
  classes r hr r' hr' n n' o o' ho ho' := (h.holds hr ho).inj_klass h.mirrored (h.holds hr' ho')
  named r hr r' hr' n n' o o' ho ho' := by
    have hn : (Answer.klass n o).Holds s.machine := h.holds hr ho n rfl
    exact hn.inj_klass h.mirrored (h.holds hr' ho')
  known r hr k hk r' hr' n o x ho hx := by
    obtain ⟨m, hknows, ht⟩ := (h.replies r hr).told
    exact (ht _ hx).2 n (hknows k hk r' hr' _ ho)

end Callers.Registered

theorem Callers.registered_idle {s : Scene} (h : s.machine.Orderly)
    (hc : s.machine.classObjects = .empty) (hi : s.machine.interned = []) :
    Callers.idle.Registered s where
  orderly := h
  mirrored := .empty hc
  interns := .empty hi
  hands := by
    refine ⟨fun _ => [], .none _, fun i b hb => ?_, fun i p hp => ?_⟩
    · cases hb
    · cases hp
  pending i p hp := by cases hp
  replies r hr := by cases hr

theorem Scene.orderly_start (libraries : List Library) (natives : NativeTable) (settings : Settings)
    (stdout stderr : Pipe) (journal : Journal) :
    (start libraries natives settings stdout stderr journal).machine.Orderly :=
  ⟨⟨libraries, rfl⟩, ClassTable.closed_nil _⟩

theorem Callers.Registered.of_start {e : Engine} (he : e.Woven) {libraries : List Library}
    {natives : NativeTable} {settings : Settings} {stdout stderr : Pipe} {journal : Journal}
    {c : Callers Inquiry Answer} {s : Scene} (hr : Run (Exec.ask e) Machine.Abides
      (.idle, .start libraries natives settings stdout stderr journal) (c, s)) : c.Registered s :=
  (registered_idle (Scene.orderly_start ..) rfl rfl).run he hr

theorem Callers.Registered.serves {c : Callers Inquiry Answer} {s : Scene} (h : c.Registered s)
    {thread : Nat} (halive : s.machine.shouldTerminate thread = false)
    (hfree : s.machine.Free thread) : s.machine.Serves thread :=
  ⟨h.orderly.libraries, h.orderly.closed, halive, hfree⟩

end BytecodeMachine
