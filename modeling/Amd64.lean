import Amd64.Main
import Amd64.Proofs.Decoder.Basic
import Amd64.Proofs.Machine.Block
import Amd64.Proofs.Machine.Precise
import Amd64.Proofs.Semantics.Instruction
import Amd64.Trace.Reader
import Amd64.Proofs.Machine.Equivalence
import Amd64.Proofs.Trace.Payload
import Amd64.Proofs.Trace.Framing
import Amd64.Proofs.Trace.RoundTrip
import Amd64.Proofs.Instruction.TextLength
import Amd64.Proofs.Machine.Observation
import Amd64.Proofs.Trace.Recorder
import Amd64.Proofs.Runner.Recording
import Amd64.Proofs.Machine.Batches
import Amd64.Proofs.Memory.Pieces
import Amd64.Proofs.Memory.Unchanged
import Amd64.Proofs.Trace.StepLog
import Amd64.Proofs.Trace.Replay
import Amd64.Proofs.Trace.Execution
import Amd64.Proofs.Runner.Slices
import Amd64.Proofs.Runner.Loading
import Amd64.Proofs.Runner.TraceFile
import Amd64.Proofs.Memory.Protect
import Amd64.Proofs.Machine.CodeRun
import Amd64.Proofs.Semantics.Attempts
import Amd64.Proofs.Memory.AllocatedPages
import Amd64.Proofs.Memory.FetchInto
import Amd64.Proofs.Semantics.WideMoves
import Amd64.Proofs.Arithmetic.Limbs
import Amd64.Proofs.Semantics.Comparison
import Amd64.Proofs.Semantics.Repetition
import Amd64.Proofs.Arithmetic.Products
import Amd64.Proofs.Semantics.MultiplyDivide
import Amd64.Proofs.Decoder.PrefixRuns
import Amd64.Proofs.Semantics.Addressing
import Amd64.Proofs.Arithmetic.Shifts
import Amd64.Proofs.Semantics.Shifts
import Amd64.Proofs.Arithmetic.Words
import Amd64.Proofs.Decoder.Branches
import Amd64.Proofs.Memory.Scan
import Amd64.Proofs.Memory.Ranges
import Amd64.Proofs.Semantics.Routines
import Amd64.Proofs.Semantics.Scans
import Amd64.Proofs.Semantics.BulkRoutines
import Amd64.Proofs.Semantics.VectorWidths
import Amd64.Proofs.Semantics.PackedIntegers
import Amd64.Proofs.Trace.Writing
import Amd64.Proofs.Trace.Enforcement
import Amd64.Proofs.Instruction.AddressText
import Amd64.Proofs.Machine.StraightLine
import Amd64.Proofs.Semantics.Stack
import Amd64.Proofs.Machine.NewStack
import Amd64.Proofs.Loops
import Amd64.Proofs.Memory.Walks
import Amd64.Proofs.Semantics.Termination
import Amd64.Proofs.Machine.Vectors
import Amd64.Proofs.Machine.RegisterBytes
import Amd64.Proofs.Memory.Bytewise
import Amd64.Proofs.Trace.Pieces
import Amd64.Proofs.Memory.Careful
import Amd64.Proofs.Memory.CarefulLayout
