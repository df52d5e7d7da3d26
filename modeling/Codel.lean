import Codel.Config.File
import Codel.Grid.BlockCache
import Codel.Grid.Navigation
import Codel.Image.File
import Codel.Machine.InstructionSet
import Codel.Main
import Codel.Program
import Codel.Proofs.Config.Order
import Codel.Proofs.Grid.Attempts
import Codel.Proofs.Grid.Cache
import Codel.Proofs.Grid.Candidates
import Codel.Proofs.Grid.Exit
import Codel.Proofs.Grid.Fill
import Codel.Proofs.Grid.Finds
import Codel.Proofs.Grid.Likeness
import Codel.Proofs.Grid.Navigation
import Codel.Proofs.Grid.Region
import Codel.Proofs.Image.Alpha
import Codel.Proofs.Image.Nearest
import Codel.Proofs.Image.Sampling
import Codel.Proofs.Machine.Arithmetic
import Codel.Proofs.Machine.Emission
import Codel.Proofs.Machine.Executor
import Codel.Proofs.Machine.Input
import Codel.Proofs.Machine.Numbers
import Codel.Proofs.Machine.OpCode
import Codel.Proofs.Machine.Operands
import Codel.Proofs.Machine.Registrations
import Codel.Proofs.Machine.Roll
import Codel.Proofs.Machine.Sink
import Codel.Proofs.Machine.Writes
import Codel.Proofs.Run.Accounts
import Codel.Proofs.Run.CodelSize
import Codel.Proofs.Run.Crossing
import Codel.Proofs.Run.Cutting
import Codel.Proofs.Run.DebugText
import Codel.Proofs.Run.Emissions
import Codel.Proofs.Run.Growth
import Codel.Proofs.Run.Leaving
import Codel.Proofs.Run.Likeness
import Codel.Proofs.Run.Logbook
import Codel.Proofs.Run.Muting
import Codel.Proofs.Run.Observers
import Codel.Proofs.Run.Padding
import Codel.Proofs.Run.Reach
import Codel.Proofs.Run.Recolouring
import Codel.Proofs.Run.Recording
import Codel.Proofs.Run.TraceLimit
import Codel.Proofs.Run.Trajectory
import Codel.Proofs.Run.Transparency
import Codel.Proofs.Safety.Blocks
import Codel.Proofs.Safety.Operations
import Codel.Proofs.Safety.Programs
import Codel.Proofs.Safety.Runs
import Codel.Proofs.Tape.Brackets
import Codel.Proofs.Tape.Comments
import Codel.Proofs.Tape.JumpTable
import Codel.Proofs.Tape.Loops
import Codel.Proofs.Tape.Spelling
import Codel.Proofs.Tape.Translation
import Codel.Proofs.Text.Numeral
import Codel.Proofs.Text.Scalar
import Codel.Proofs.Trace.Pieces
import Codel.Proofs.Trace.Reading
import Codel.Proofs.Trace.RoundTrip
import Codel.Proofs.Trace.Truncation
import Codel.Run.Exposition
import Codel.Run.Report
import Codel.RunId
import Codel.Shell.Basic
import Codel.Tape.File
import Codel.Tape.Machine
import Codel.Tape.Ook
import Codel.Text.Shortest
import Codel.Toml.Table
import Codel.Trace.Decoding
import Codel.Trace.Encoding
import Codel.Trace.Listing
import Codel.Proofs.Grid.Exit
import Codel.Proofs.Machine.Registrations
