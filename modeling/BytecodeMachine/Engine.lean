import BytecodeMachine.Exec.Run

/-!
The engine, which ties the parts that run guest code together. It is cut off after a bounded number of
nested steps.
-/

namespace BytecodeMachine.Engine

def bounded : Nat → Engine
  | 0 =>
      { run := fun _ => Exec.lift .starve
        setUp := fun _ => Exec.lift .starve
        native := fun _ _ => Exec.lift .starve }
  | bound + 1 =>
      { run := fun limit t => Exec.run (bounded bound) limit t
        setUp := fun c t => Exec.setUp (bounded bound) c t
        native := fun m arguments t => Exec.callNative (bounded bound) m arguments t }

def standard : Engine := bounded 1000000000000000000

end BytecodeMachine.Engine
