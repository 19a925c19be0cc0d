import BytecodeMachine.Proofs.Construction.Code
import BytecodeMachine.Proofs.Interleaving

namespace BytecodeMachine

inductive Demand where
  | entry (p : EntryPoint) (arguments : List String)
  | setUp (n : ClassName)
  | call (ref : MethodRef) (arguments : List Value)

namespace Exec

def answer (e : Engine) : Demand → Exec Unit
  | .entry p arguments => do
      let _ ← runEntry e p arguments
  | .setUp n => do
      e.setUp (← loadClass n)
  | .call ref arguments => do
      let (c, m) ← resolveMethod ref
      let _ ← invokeMethod e c m arguments

theorem Built.answer_setUp {e : Engine} (n : ClassName) :
    Built e .every .host [] (answer e (.setUp n)) :=
  .loadClass_bind fun _ => .setUp List.mem_cons_self (Realm.every_setsUp _)

theorem Built.answer_call {e : Engine} (ref : MethodRef) (arguments : List Value) :
    Built e .every .host [] (answer e (.call ref arguments)) :=
  .resolveMethod_bind fun _ =>
    .bind (.invoke arguments (.named List.mem_cons_self) (Realm.every_calls _ _ _)) fun _ => .pure ()

def serve (e : Engine) : List Demand → Exec Unit
  | [] => pure ()
  | d :: rest => do
      let _ ← attempt (answer e d)
      serve e rest

end Exec

def Engine.sessions (e : Engine) (name : Nat → String) (demands : Nat → List Demand) :
    Pool (Except Trap Unit × Thread) :=
  fun i => (Exec.serve e (demands i)).on (.start i (name i))

end BytecodeMachine
