import PowerLift.Block
import PowerLift.Command
import PowerLift.Command.Arguments
import PowerLift.Command.Basic
import PowerLift.Command.Usage
import PowerLift.Decimal.Classify
import PowerLift.Decimal.Declet
import PowerLift.Elf
import PowerLift.Elf.Dynamic
import PowerLift.Elf.Format
import PowerLift.Elf.Section
import PowerLift.Expr
import PowerLift.Failure
import PowerLift.Family
import PowerLift.Family.Arithmetic
import PowerLift.Family.Basic
import PowerLift.Family.Branch
import PowerLift.Family.Cipher
import PowerLift.Family.Comparison
import PowerLift.Family.ConditionRegister
import PowerLift.Family.DecimalFloat
import PowerLift.Family.FloatingPoint
import PowerLift.Family.LoadStore
import PowerLift.Family.Logic
import PowerLift.Family.Multiple
import PowerLift.Family.Reservation
import PowerLift.Family.Rotate
import PowerLift.Family.System
import PowerLift.Family.Transaction
import PowerLift.Family.Trap
import PowerLift.Family.VectorFloat
import PowerLift.Family.VectorInteger
import PowerLift.Family.VectorScalar
import PowerLift.Family.VectorScalar.Encoding
import PowerLift.Family.VectorScalarMemory
import PowerLift.Fault
import PowerLift.Guest
import PowerLift.Hook
import PowerLift.Image
import PowerLift.Insn.Bits
import PowerLift.Insn.Word
import PowerLift.Json
import PowerLift.Json.Number
import PowerLift.Json.Printer
import PowerLift.Json.Reader
import PowerLift.Json.Token
import PowerLift.Lift.Basic
import PowerLift.Lift.Flags
import PowerLift.Lift.Memory
import PowerLift.Lift.Registers
import PowerLift.Main
import PowerLift.Op
import PowerLift.Op.Cast
import PowerLift.Op.Decimal
import PowerLift.Op.Float
import PowerLift.Op.Vector
import PowerLift.Op.Width
import PowerLift.Proofs.BlockIndependence
import PowerLift.Proofs.CapabilityGating
import PowerLift.Proofs.CleanState
import PowerLift.Proofs.ConditionInstruction
import PowerLift.Proofs.ConditionRefinement
import PowerLift.Proofs.ConditionRegister
import PowerLift.Proofs.ConditionWord
import PowerLift.Proofs.ControlFlow
import PowerLift.Proofs.Effect
import PowerLift.Proofs.Emission
import PowerLift.Proofs.Execution
import PowerLift.Proofs.Family.Control
import PowerLift.Proofs.Family.Floating
import PowerLift.Proofs.Family.Integer
import PowerLift.Proofs.Family.Storage
import PowerLift.Proofs.Family.Vector
import PowerLift.Proofs.Family.VectorScalar
import PowerLift.Proofs.FlagBits
import PowerLift.Proofs.Flags
import PowerLift.Proofs.Formation
import PowerLift.Proofs.Instruction
import PowerLift.Proofs.Layout
import PowerLift.Proofs.Lifting
import PowerLift.Proofs.Meaning
import PowerLift.Proofs.Memory
import PowerLift.Proofs.Pairing
import PowerLift.Proofs.Placement
import PowerLift.Proofs.PreciseFaults
import PowerLift.Proofs.Primitive
import PowerLift.Proofs.RegisterFile
import PowerLift.Proofs.Registers
import PowerLift.Proofs.Relocation
import PowerLift.Proofs.Simulation
import PowerLift.Proofs.Staged
import PowerLift.Proofs.Staging
import PowerLift.Proofs.StateAccess
import PowerLift.Proofs.Transcript
import PowerLift.Proofs.Typing
import PowerLift.Proofs.WellFormed
import PowerLift.Route
import PowerLift.Scan
import PowerLift.Session
import PowerLift.Settings
import PowerLift.Stage
import PowerLift.State.FlagRule
import PowerLift.State.Layout
import PowerLift.State.Slot
import PowerLift.Target.Arch
import PowerLift.Target.CapabilityText
import PowerLift.Target.Processor
import PowerLift.Text.Blank
import PowerLift.Text.Hex
import PowerLift.Text.Listing
import PowerLift.Text.Numeral
import PowerLift.Text.Terminal
import PowerLift.Ty
import PowerLift.Walk
import PowerLift.Proofs.BreadthFirst
import PowerLift.Proofs.Completion
import PowerLift.Proofs.StickyBits
import PowerLift.Proofs.Successors
import PowerLift.Proofs.Operations
import PowerLift.Proofs.Drafting
import PowerLift.Proofs.Lexing
import PowerLift.Proofs.OperatorNames
import PowerLift.Proofs.ListingTokens
import PowerLift.Proofs.UniqueReading
import PowerLift.Proofs.ByteMemory
import PowerLift.Proofs.Acceptance
import PowerLift.Proofs.Access
import PowerLift.Proofs.OpenTemporary
import PowerLift.Proofs.ConditionalStore
import PowerLift.Proofs.VectorElement
import PowerLift.Proofs.IntegerOperators
import PowerLift.Proofs.Points
import PowerLift.Proofs.Addends
import PowerLift.Proofs.IntegerResult
import PowerLift.Proofs.IntegerSteps
import PowerLift.Proofs.Routes
import PowerLift.Proofs.FlagConditions
import PowerLift.Proofs.IntegerForms
import PowerLift.Proofs.Sums
import PowerLift.Proofs.Quotients
import PowerLift.Proofs.NumberParts
import PowerLift.Proofs.Products
import PowerLift.Proofs.RingMasks
import PowerLift.Proofs.Shifts
import PowerLift.Proofs.Rotations
import PowerLift.Proofs.ShiftForms
import PowerLift.Proofs.ScalarOperators
import PowerLift.Proofs.Outcomes
import PowerLift.Proofs.Traps
import PowerLift.Proofs.Branches
import PowerLift.Proofs.Transfers
import PowerLift.Proofs.PairTransfers
import PowerLift.Proofs.TransferForms
import PowerLift.Proofs.Filling
import PowerLift.Proofs.StringBytes
import PowerLift.Proofs.Strings
import PowerLift.Proofs.SpecialRegisters
import PowerLift.Proofs.SpecialMoves
import PowerLift.Proofs.StatusRegister
import PowerLift.Proofs.StatusMoves
import PowerLift.Proofs.Elements
import PowerLift.Proofs.VectorOperators
import PowerLift.Proofs.VectorSteps
import PowerLift.Proofs.Saturation
import PowerLift.Proofs.SaturatingForms
import PowerLift.Proofs.Frames
import PowerLift.Proofs.Rearrangement
import PowerLift.Proofs.Pixels
import PowerLift.Proofs.VectorMoves
import PowerLift.Proofs.VectorScalarMoves
import PowerLift.Proofs.VectorFrames
import PowerLift.Proofs.VectorStatus
import PowerLift.Proofs.DecimalValue
import PowerLift.Proofs.DecimalClass
import PowerLift.Proofs.PackedDigits
import PowerLift.Proofs.PackedValues
import PowerLift.Proofs.PackedForms
import PowerLift.Proofs.Comparisons
import PowerLift.Proofs.ComparisonReaders
import PowerLift.Proofs.WordMemory
import PowerLift.Proofs.FloatItems
import PowerLift.Proofs.FloatTransfers
import PowerLift.Proofs.VectorScalarTransfers
import PowerLift.Proofs.FloatForms
import PowerLift.Proofs.RegistersInMemory
import PowerLift.Proofs.Requests
import PowerLift.Proofs.IdleRequests
import PowerLift.Proofs.CacheBlocks
import PowerLift.Proofs.BitGroups
import PowerLift.Proofs.BitSteps
import PowerLift.Proofs.BitForms
import PowerLift.Proofs.Course
import PowerLift.Proofs.Tally
import PowerLift.Proofs.Loading
import PowerLift.Proofs.Operands
import PowerLift.Proofs.ReferenceEvaluation
import PowerLift.Proofs.AddressTexts
import PowerLift.Proofs.InstructionFields
import PowerLift.Proofs.Atomicity
