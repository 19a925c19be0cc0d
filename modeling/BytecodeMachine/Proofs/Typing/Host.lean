import BytecodeMachine.Bridge.Call
import BytecodeMachine.Exec.Throwing
import BytecodeMachine.Proofs.Typing.Writes

namespace BytecodeMachine

variable {α : Type}

structure Engine.Lawful (e : Engine) : Prop where
  run : ∀ limit, (e.run limit).Lawful
  setUp : ∀ (m : Machine) (c : Class), m.Has c → (e.setUp c).Acts m fun _ _ => True
  native : ∀ m arguments, (e.native m arguments).Lawful

namespace Exec

variable {e : Engine}

namespace Lawful

theorem enterFrame (c : Class) (m : Method) (arguments : List Value) :
    Lawful (Exec.enterFrame c m arguments) := by
  have next : Lawful (do
      let f ← Exec.ofExcept (Frame.enter c m arguments)
      MonadStateOf.modifyGet fun t => (PUnit.unit, Thread.push f t) : Exec PUnit) :=
    (ofExcept _).bind fun f => modify _
  refine (read _).bind fun noted => ?_
  split
  · exact get.bind fun t => (note _).bind fun _ => next
  · exact next

theorem enterMethod (he : e.Lawful) (c : Class) (m : Method) (arguments : List Value) :
    Lawful (Exec.enterMethod e c m arguments) := by
  unfold Exec.enterMethod
  split
  · refine (he.native m arguments).bind fun v => ?_
    cases v with
    | none => exact pure ()
    | some v => exact push v
  · split
    · exact raise _
    · exact enterFrame c m arguments

theorem takeResult : Lawful Exec.takeResult := by
  refine get.bind fun t => ?_
  split
  · exact fail _
  · refine (modify _).bind fun _ => ?_
    split
    · exact throw _
    · exact pure _

theorem invokeMethod (he : e.Lawful) (c : Class) (m : Method) (arguments : List Value) :
    Lawful (Exec.invokeMethod e c m arguments) := by
  refine (note _).bind fun _ => get.bind fun t => (modify _).bind fun _ => ?_
  refine ((enterMethod he c m arguments).bind fun _ => he.run _).attempt_bind fun r => ?_
  cases r with
  | ok _ => exact takeResult
  | error trap => exact (modify _).bind fun _ => throw _

theorem stringValue (o : ObjectId) : Lawful (Exec.stringValue o) :=
  (read _).bind fun _ => ofExcept _

theorem classNameOf? (o : ObjectId) : Lawful (Exec.classNameOf? o) := locked (read _)

theorem static (f : Field) : Lawful (Exec.static f) := locked (read _)

theorem writeReport (headline : String) (frames : List String) :
    Lawful (Exec.writeReport headline frames) := by
  refine update fun m => ?_
  split
  · exact ⟨rfl, .refl, rfl, fun _ => rfl⟩
  · exact Machine.rests_note _ m

theorem exitAllFrames : Lawful Exec.exitAllFrames :=
  get.bind fun _ => (note _).bind fun _ => set _

theorem findHandler (c : Class) (handlers : List Handler) :
    Lawful (Exec.findHandler c handlers) := by
  induction handlers with
  | nil => exact pure none
  | cons h rest ih =>
    unfold Exec.findHandler
    split
    · exact pure _
    · refine (looking (Resolving.finds_loadClass _)).bind fun found => ?_
      cases found with
      | error err => exact fail _
      | ok catchType =>
        dsimp only
        split
        · exact pure _
        · exact ih

end Lawful

namespace Acts

variable {m : Machine} {c : Class}

theorem allocateInstance (he : e.Lawful) (hc : m.Has c) :
    Acts m (Exec.allocateInstance e c) fun o m' => m'.IsA o c := by
  unfold Exec.allocateInstance
  exact guard (fun _ => raise _) fun _ => (he.setUp m c hc).bind fun _ _ hg _ => newObject (hg.has hc)

theorem newStringOfUnits (he : e.Lawful) (units : List UInt16) :
    Acts m (Exec.newStringOfUnits e units) fun o m' =>
      ∃ c, m'.classes.get? .string = some c ∧ m'.IsA o c := by
  refine (arrayOf rfl (by decide)).bind fun chars m1 _ _ => ?_
  refine (loadClass _).bind fun c m2 _ hc => (he.setUp m2 c hc.2).bind fun _ m3 hg3 _ => ?_
  split
  · exact fail _
  · refine (newObject (hg3.has hc.2)).bind fun o m4 hg4 ho => ?_
    refine (Lawful.invokeMethod he c _ _ m4).bind fun _ m5 hg5 _ => pure fun m6 hg6 => ?_
    have hg := (hg5.trans hg6)
    exact ⟨c, hg.classes _ _ (hg4.classes _ _ (hg3.classes _ _ hc.1)), hg.isA ho⟩

theorem storeStrings (he : e.Lawful) {array : ObjectId} {k : Class} (ha : m.IsA array c)
    (hk : c.component = some k) (hs : m.classes.get? .string = some k) (i : Nat)
    (texts : List (Option String)) :
    Acts m (Exec.storeStrings e array i texts) fun _ _ => True := by
  induction texts generalizing i m with
  | nil => exact Lawful.pure () m
  | cons text rest ih =>
    cases text with
    | none => exact ih ha hs (i + 1)
    | some text =>
      refine (newStringOfUnits he _).bind fun o m1 hg1 ⟨d, hd, ho⟩ => ?_
      cases (hg1.classes _ _ hs).symm.trans hd
      have ht := (hg1.isA ha).takes hk (ho.fits k.isAssignable_self)
      refine (storeElement ht _).bind fun _ m2 hg2 _ => ?_
      exact ih ((hg1.trans hg2).isA ha) ((hg1.trans hg2).classes _ _ hs) (i + 1)

theorem newStringArray (he : e.Lawful) (texts : List (Option String)) :
    Acts m (Exec.newStringArray e texts) fun _ _ => True := by
  have hclass : Acts m (Exec.arrayClass .string) fun c m' => m'.Has c ∧
      ∃ k, c.component = some k ∧ m'.classes.get? .string = some k := by
    refine (arrayClass _).mono fun c m' _ hs hc => ⟨hc.1, ?_⟩
    rcases hs.closed.component hc.1 hc.2 with h | ⟨n, k, hn, hk, hget⟩
    · cases h.1
    · cases hn
      exact ⟨k, hk, hget⟩
  refine hclass.bind fun c m1 _ ⟨hc, k, hk, hs⟩ => (newArray hc _).bind fun array m2 hg2 ha => ?_
  refine (storeStrings he ha.1 hk (hg2.classes _ _ hs) 0 texts).bind fun _ m3 _ _ => ?_
  exact Lawful.pure _ m3

theorem newComponents (hc : m.Has c) (count : Nat) :
    Acts m (Exec.newArray c count) fun o m' =>
      m'.IsA o c ∧ ∀ k, c.component = some k → m'.Has k := by
  refine (newArray hc count).mono fun o m1 hg hs ⟨ho, ht⟩ => ⟨ho, fun k hk => ?_⟩
  obtain ⟨t, ht⟩ := Option.isSome_iff_exists.1 ht
  rcases hs.closed.component (hg.has hc) ht with h | ⟨n, d, -, hd, hget⟩
  · cases h.2.symm.trans hk
  · cases hd.symm.trans hk
    exact hs.has hget

theorem fillDimensions {array : ObjectId} {k : Class} {size : Nat} {inner : List Nat}
    (hd : ∀ m' : Machine, m'.Has k →
      Acts m' (Exec.newDimensions k size inner) fun o m2 => m2.IsA o k)
    (ha : m.IsA array c) (hc : c.component = some k) (hk : m.Has k) (index left : Nat) :
    Acts m (Exec.fillDimensions array k size inner index left) fun _ _ => True := by
  induction left generalizing index m with
  | zero =>
    rw [Exec.fillDimensions]
    exact Lawful.pure () m
  | succ left ih =>
    rw [Exec.fillDimensions]
    refine (hd m hk).bind fun o m1 hg1 ho => ?_
    have ht := (hg1.isA ha).takes hc (ho.fits k.isAssignable_self)
    refine (storeElement ht _).bind fun _ m2 hg2 _ => ?_
    exact ih ((hg1.trans hg2).isA ha) ((hg1.trans hg2).has hk) (index + 1)

theorem newDimensions (hc : m.Has c) (count : Nat) (inner : List Nat) :
    Acts m (Exec.newDimensions c count inner) fun o m' => m'.IsA o c := by
  induction inner generalizing m c count with
  | nil =>
    rw [Exec.newDimensions]
    exact (newArray hc count).bind fun o m1 _ ho => pure fun m2 hg => hg.isA ho.1
  | cons size rest ih =>
    rw [Exec.newDimensions]
    refine (newComponents hc count).bind fun o m1 _ ho => ?_
    dsimp only
    split
    · exact fail _
    · rename_i k hk
      refine (fillDimensions (fun m' h => ih h size) ho.1 hk (ho.2 k hk) 0 count).bind ?_
      exact fun _ m2 hg2 _ => pure fun m3 hg3 => (hg2.trans hg3).isA ho.1

end Acts

namespace Lawful

variable (he : e.Lawful)

include he

theorem newString (text : String) : Lawful (Exec.newString e text) :=
  fun _ => mono (.newStringOfUnits he _)

theorem intern (text : String) : Lawful (Exec.intern e text) := by
  refine locked ((read _).bind fun found => ?_)
  split
  · exact pure _
  · exact (newString he text).bind fun o => act fun m => ⟨rfl, .refl, rfl, fun _ => rfl⟩

theorem classObject (n : ClassName) : Lawful (Exec.classObject e n) := by
  refine locked ((read _).bind fun found => ?_)
  split
  · exact pure _
  · refine (loadClass n).bind fun _ m => ?_
    refine (Acts.loadClass _).bind fun c m1 _ hc => (he.setUp m1 c hc.2).bind fun _ m2 hg2 _ => ?_
    refine (Acts.newObject (hg2.has hc.2)).bind fun o m3 _ _ => act (fun m => ?_) m3
    exact ⟨rfl, .refl, rfl, fun _ => rfl⟩

theorem newThrowable (n : ClassName) (message : String) :
    Lawful (Exec.newThrowable e n message) := by
  intro m
  refine (Acts.loadClass n).bind fun c m1 _ hc => (he.setUp m1 c hc.2).bind fun _ m2 hg2 _ => ?_
  split
  · exact .fail _
  · refine (Acts.newObject (hg2.has hc.2)).bind fun o m3 _ _ => ?_
    exact ((newString he message).bind fun text => (invokeMethod he c _ _).bind fun _ => pure o) m3

theorem materialize (cause : Cause) : Lawful (Exec.materialize e cause) := newThrowable he _ _

theorem callHandler (n : ClassName) (f : MemberName) (o : ObjectId) :
    Lawful (Exec.callHandler e n f o) := by
  intro m
  refine (Acts.loadClass n).bind fun c m1 _ hc => (he.setUp m1 c hc.2).bind fun _ m2 _ _ => ?_
  split
  · exact .fail _
  · exact ((invokeMethod he c _ _).bind fun _ => pure ()) m2

theorem runHandler (o : ObjectId) : Lawful (Exec.runHandler e o) := by
  refine (read _).bind fun hook => ?_
  split
  · exact pure ()
  · rename_i c m
    refine get.bind fun t => ?_
    split
    · exact pure ()
    · refine (modify _).bind fun _ => (callHandler he c m o).attempt_bind fun r => ?_
      refine (modify _).bind fun _ => ?_
      rcases r with trap | ⟨⟩
      · cases trap with
        | throw _ => exact note _
        | raise _ => exact note _
        | fatal _ => exact throw _
        | exit => exact throw _
      · exact pure ()

theorem uncaught (o : ObjectId) : Lawful (Exec.uncaught e o) := by
  refine (classOf o).bind fun c => (read _).bind fun message => get.bind fun t => ?_
  refine (note _).bind fun _ => (runHandler he o).bind fun _ => get.bind fun t => ?_
  exact (modify _).bind fun _ => (writeReport _ _).bind fun _ => modify _

theorem dispatch (o : ObjectId) : Lawful (Exec.dispatch e o) := by
  refine get.bind fun t => ?_
  split
  · exact fail _
  · split
    · exact modify _
    · refine (classOf o).bind fun c => (findHandler c _).bind fun found => ?_
      cases found with
      | some target => exact (pass _).bind fun _ => modify _
      | none =>
        refine (modify _).bind fun _ => ?_
        split
        · exact (modify _).bind fun _ => uncaught he o
        · exact modify _

end Lawful

end Exec

end BytecodeMachine
