import BytecodeMachine.Proofs.AbsentClasses
import BytecodeMachine.Proofs.ArrayCopies
import BytecodeMachine.Proofs.ArrayCopies.ComponentTypes
import BytecodeMachine.Proofs.ArrayElements
import BytecodeMachine.Proofs.ArrayNames
import BytecodeMachine.Proofs.ArrayTrees
import BytecodeMachine.Proofs.ArrayTyping
import BytecodeMachine.Proofs.Boxing
import BytecodeMachine.Proofs.Bridge
import BytecodeMachine.Proofs.CallStack
import BytecodeMachine.Proofs.CallTyping
import BytecodeMachine.Proofs.ClassNames
import BytecodeMachine.Proofs.EntryRuns
import BytecodeMachine.Proofs.Escape
import BytecodeMachine.Proofs.FieldTyping
import BytecodeMachine.Proofs.Finals
import BytecodeMachine.Proofs.Identities
import BytecodeMachine.Proofs.Initialization
import BytecodeMachine.Proofs.Integers
import BytecodeMachine.Proofs.Interning
import BytecodeMachine.Proofs.Loading.Assignability
import BytecodeMachine.Proofs.Locals
import BytecodeMachine.Proofs.Locking.Ending
import BytecodeMachine.Proofs.Lookup.Fields
import BytecodeMachine.Proofs.Manifests.EntryPoints
import BytecodeMachine.Proofs.MismatchedCalls
import BytecodeMachine.Proofs.Pointers
import BytecodeMachine.Proofs.PrivateCalls
import BytecodeMachine.Proofs.Registry
import BytecodeMachine.Proofs.Reports
import BytecodeMachine.Proofs.Shuffles
import BytecodeMachine.Proofs.SpecialCalls
import BytecodeMachine.Proofs.StaticTyping
import BytecodeMachine.Proofs.Switches
import BytecodeMachine.Proofs.SystemCalls
import BytecodeMachine.Proofs.Tasks
import BytecodeMachine.Proofs.Throwables
