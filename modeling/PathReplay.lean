import PathReplay.Arch
import PathReplay.CommandLine.Address
import PathReplay.CommandLine.Options
import PathReplay.CommandLine.Report
import PathReplay.CommandLine.Request
import PathReplay.CommandLine.Run
import PathReplay.Config
import PathReplay.Double.Basic
import PathReplay.Double.Extended
import PathReplay.Double.Rounding
import PathReplay.Error
import PathReplay.Graph.FlowChart
import PathReplay.Graph.Path
import PathReplay.Graph.Replay
import PathReplay.Graph.Trace
import PathReplay.Graph.Walk
import PathReplay.Instruction.Arithmetic
import PathReplay.Instruction.Branch
import PathReplay.Instruction.Checked
import PathReplay.Instruction.Condition
import PathReplay.Instruction.Exec
import PathReplay.Instruction.FloatingPoint
import PathReplay.Instruction.Integer
import PathReplay.Instruction.Move
import PathReplay.Instruction.Operation
import PathReplay.Instruction.Shift
import PathReplay.Json.Decoder
import PathReplay.Json.Number
import PathReplay.Json.Reader
import PathReplay.Json.Value
import PathReplay.Json.Writer
import PathReplay.LibC.Basic
import PathReplay.LibC.Name
import PathReplay.Listing.Basic
import PathReplay.Listing.Declaration
import PathReplay.Listing.Export
import PathReplay.Listing.Function
import PathReplay.Listing.Instruction
import PathReplay.Machine.Arguments
import PathReplay.Machine.Basic
import PathReplay.Machine.Call
import PathReplay.Machine.Operand
import PathReplay.Machine.Strings
import PathReplay.Machine.Tracking
import PathReplay.Machine.Variables
import PathReplay.Main
import PathReplay.Memory.Basic
import PathReplay.Memory.Heap
import PathReplay.Memory.Search
import PathReplay.Memory.Segment
import PathReplay.Memory.Span
import PathReplay.Project.Basic
import PathReplay.Project.Program
import PathReplay.Proofs.CommandLine.Addresses
import PathReplay.Proofs.Double.Extended
import PathReplay.Proofs.Graph.BlockLookup
import PathReplay.Proofs.Graph.CachedReplay
import PathReplay.Proofs.Graph.CallChains
import PathReplay.Proofs.Graph.Coverage
import PathReplay.Proofs.Graph.Lookup
import PathReplay.Proofs.Graph.PathTree
import PathReplay.Proofs.Graph.SimplePaths
import PathReplay.Proofs.Graph.Tracing
import PathReplay.Proofs.Graph.WalkOrder
import PathReplay.Proofs.Graph.Walks
import PathReplay.Proofs.Instruction.Addressing
import PathReplay.Proofs.Instruction.Chains
import PathReplay.Proofs.Instruction.Checked
import PathReplay.Proofs.Instruction.CheckedArithmetic
import PathReplay.Proofs.Instruction.Comparisons
import PathReplay.Proofs.Instruction.ControlFlow
import PathReplay.Proofs.Instruction.Destinations
import PathReplay.Proofs.Instruction.Exchanges
import PathReplay.Proofs.Instruction.Faults
import PathReplay.Proofs.Instruction.Immediates
import PathReplay.Proofs.Instruction.KeptProgram
import PathReplay.Proofs.Instruction.LazyPages
import PathReplay.Proofs.Instruction.Products
import PathReplay.Proofs.Instruction.Quotients
import PathReplay.Proofs.Instruction.RegisterSaves
import PathReplay.Proofs.Instruction.Rotates
import PathReplay.Proofs.Instruction.Shifts
import PathReplay.Proofs.Instruction.Steps
import PathReplay.Proofs.Instruction.StringMoves
import PathReplay.Proofs.Instruction.Sums
import PathReplay.Proofs.Instruction.TwosComplement
import PathReplay.Proofs.Json.Literals
import PathReplay.Proofs.Json.RoundTrip
import PathReplay.Proofs.LibC.Decorations
import PathReplay.Proofs.LibC.EmptyWrites
import PathReplay.Proofs.LibC.StringRoutines
import PathReplay.Proofs.Listing.Declarations
import PathReplay.Proofs.Listing.RoundTrip
import PathReplay.Proofs.Machine.Accumulators
import PathReplay.Proofs.Machine.Agreement
import PathReplay.Proofs.Machine.Allocations
import PathReplay.Proofs.Machine.CallArguments
import PathReplay.Proofs.Machine.Calls
import PathReplay.Proofs.Machine.Entering
import PathReplay.Proofs.Machine.FrameSlots
import PathReplay.Proofs.Machine.Frames
import PathReplay.Proofs.Machine.Histories
import PathReplay.Proofs.Machine.Locations
import PathReplay.Proofs.Machine.Places
import PathReplay.Proofs.Machine.Stack
import PathReplay.Proofs.Machine.Strings
import PathReplay.Proofs.Memory.Agreement
import PathReplay.Proofs.Memory.Contents
import PathReplay.Proofs.Memory.Copies
import PathReplay.Proofs.Memory.FreshBlocks
import PathReplay.Proofs.Memory.HeapGrowth
import PathReplay.Proofs.Memory.HeapSafety
import PathReplay.Proofs.Memory.MappedRanges
import PathReplay.Proofs.Memory.Overlay
import PathReplay.Proofs.Memory.Paging
import PathReplay.Proofs.Memory.Reallocation
import PathReplay.Proofs.Memory.Search
import PathReplay.Proofs.Memory.Spans
import PathReplay.Proofs.Register.Aliasing
import PathReplay.Proofs.Register.FloatRing
import PathReplay.Proofs.Register.Slots
import PathReplay.Proofs.Register.Windows
import PathReplay.Proofs.Text.Trimming
import PathReplay.Register.Field
import PathReplay.Register.File
import PathReplay.Register.FloatStack
import PathReplay.Register.Layout
import PathReplay.Text.Blank
import PathReplay.Text.Digits
import PathReplay.Text.Hex
import PathReplay.Text.Quoted
import PathReplay.Text.Unprintable
import PathReplay.Word
