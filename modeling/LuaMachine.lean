import LuaMachine.Code.ChunkName
import LuaMachine.Code.Instruction
import LuaMachine.Code.Listing
import LuaMachine.Code.Opcode
import LuaMachine.Code.Prototype
import LuaMachine.Code.Provenance
import LuaMachine.Code.SizeHint
import LuaMachine.Code.Verification
import LuaMachine.Event
import LuaMachine.Failure
import LuaMachine.Machine.Basic
import LuaMachine.Machine.Calls
import LuaMachine.Machine.Cells
import LuaMachine.Machine.Dispatch
import LuaMachine.Machine.Frame
import LuaMachine.Machine.Heap
import LuaMachine.Machine.Inspection
import LuaMachine.Machine.Interface
import LuaMachine.Machine.Limits
import LuaMachine.Machine.Loading
import LuaMachine.Machine.Metatables
import LuaMachine.Machine.Naming
import LuaMachine.Machine.Operations
import LuaMachine.Machine.Requests
import LuaMachine.Machine.Resumption
import LuaMachine.Machine.Run
import LuaMachine.Machine.Stack
import LuaMachine.Native.Arguments
import LuaMachine.Native.Behaviour
import LuaMachine.Native.Expression
import LuaMachine.Native.Library
import LuaMachine.Number.Binary64
import LuaMachine.Number.Decimal
import LuaMachine.Number.Integer
import LuaMachine.Number.Layout
import LuaMachine.Number.Numeral
import LuaMachine.Operator
import LuaMachine.Proofs.Code.Acceptance
import LuaMachine.Proofs.Code.ChunkNames
import LuaMachine.Proofs.Code.ConstantPool
import LuaMachine.Proofs.Code.InstructionFields
import LuaMachine.Proofs.Code.LastWriters
import LuaMachine.Proofs.Code.SizeHints
import LuaMachine.Proofs.Machine.Alike
import LuaMachine.Proofs.Machine.AlikeCalls
import LuaMachine.Proofs.Machine.AlikeEffects
import LuaMachine.Proofs.Machine.AlikeInstructions
import LuaMachine.Proofs.Machine.AlikeRuns
import LuaMachine.Proofs.Machine.Arguments
import LuaMachine.Proofs.Machine.ArithmeticFailures
import LuaMachine.Proofs.Machine.Balance
import LuaMachine.Proofs.Machine.Bounds
import LuaMachine.Proofs.Machine.Budget
import LuaMachine.Proofs.Machine.CallEffects
import LuaMachine.Proofs.Machine.CallHandlers
import LuaMachine.Proofs.Machine.CallStack
import LuaMachine.Proofs.Machine.Candor
import LuaMachine.Proofs.Machine.Compositional
import LuaMachine.Proofs.Machine.Concatenation
import LuaMachine.Proofs.Machine.Courses
import LuaMachine.Proofs.Machine.DispatchEffects
import LuaMachine.Proofs.Machine.Enduring
import LuaMachine.Proofs.Machine.Faults
import LuaMachine.Proofs.Machine.FrameChain
import LuaMachine.Proofs.Machine.Indexing
import LuaMachine.Proofs.Machine.Indifference
import LuaMachine.Proofs.Machine.InstructionEffects
import LuaMachine.Proofs.Machine.Invariant
import LuaMachine.Proofs.Machine.Isolation
import LuaMachine.Proofs.Machine.Nesting
import LuaMachine.Proofs.Machine.NextInstruction
import LuaMachine.Proofs.Machine.NumericLoops
import LuaMachine.Proofs.Machine.OpenCells
import LuaMachine.Proofs.Machine.OperationEffects
import LuaMachine.Proofs.Machine.Ordinary
import LuaMachine.Proofs.Machine.OrdinaryInstructions
import LuaMachine.Proofs.Machine.OrdinaryOperations
import LuaMachine.Proofs.Machine.Progress
import LuaMachine.Proofs.Machine.Propagation
import LuaMachine.Proofs.Machine.Reachable
import LuaMachine.Proofs.Machine.Results
import LuaMachine.Proofs.Machine.Runs
import LuaMachine.Proofs.Machine.SharedVariables
import LuaMachine.Proofs.Machine.Shortage
import LuaMachine.Proofs.Machine.StackContents
import LuaMachine.Proofs.Machine.StackEffects
import LuaMachine.Proofs.Machine.StackRoom
import LuaMachine.Proofs.Machine.StaleSlots
import LuaMachine.Proofs.Machine.TailCalls
import LuaMachine.Proofs.Machine.Tracebacks
import LuaMachine.Proofs.Machine.Triple
import LuaMachine.Proofs.Number.Accumulators
import LuaMachine.Proofs.Number.BinaryExponents
import LuaMachine.Proofs.Number.Denotation
import LuaMachine.Proofs.Number.FloatNumerals
import LuaMachine.Proofs.Number.FloatTexts
import LuaMachine.Proofs.Number.HexadecimalMantissas
import LuaMachine.Proofs.Number.IntegerNumerals
import LuaMachine.Proofs.Number.RationalValues
import LuaMachine.Proofs.Number.Rounding
import LuaMachine.Proofs.Number.TrimmedTexts
import LuaMachine.Proofs.Number.WrittenNumerals
import LuaMachine.Proofs.Table.Border
import LuaMachine.Proofs.Table.FiniteMap
import LuaMachine.Proofs.Table.Representation
import LuaMachine.Proofs.Table.Slots
import LuaMachine.Proofs.Table.Traversal
import LuaMachine.Proofs.Value.FlooredDivision
import LuaMachine.Proofs.Value.IntegerLoops
import LuaMachine.Proofs.Value.Keys
import LuaMachine.Proofs.Value.LogicalShifts
import LuaMachine.Proofs.Value.LoopLimits
import LuaMachine.Proofs.Value.NumericOrder
import LuaMachine.Table.Basic
import LuaMachine.Table.OrderedMap
import LuaMachine.Text.Bytes
import LuaMachine.Text.CodePoints
import LuaMachine.Text.Combining
import LuaMachine.Text.Quoted
import LuaMachine.Text.Unprintable
import LuaMachine.Text.Utf8
import LuaMachine.Value.Arithmetic
import LuaMachine.Value.Basic
import LuaMachine.Value.Key
import LuaMachine.Value.NumericLoop
import LuaMachine.Value.Order
