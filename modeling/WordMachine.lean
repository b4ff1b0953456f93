import WordMachine.Main
import WordMachine.Report
import WordMachine.Proofs.Decoding
import WordMachine.Proofs.Encoding
import WordMachine.Proofs.Execution
import WordMachine.Proofs.Stepping
import WordMachine.Proofs.Running
import WordMachine.Proofs.Bounds
import WordMachine.Proofs.Closure
import WordMachine.Proofs.Reachability
import WordMachine.Proofs.StackDiscipline
import WordMachine.Proofs.Surroundings
import WordMachine.Proofs.Turns
import WordMachine.Proofs.Lifecycle
import WordMachine.Proofs.UnreadInput
import WordMachine.Proofs.Streams
import WordMachine.Proofs.Stopping
import WordMachine.Proofs.Loading
import WordMachine.Proofs.Verdicts
import WordMachine.Proofs.Numerals
import WordMachine.Proofs.Reports
import WordMachine.Proofs.Listings
import WordMachine.Proofs.InstructionTable
import WordMachine.Proofs.Faults
import WordMachine.Proofs.EchoLine
import WordMachine.Proofs.FailedInstructions
import WordMachine.Proofs.Operations
import WordMachine.Proofs.SourceValues
import WordMachine.Proofs.Arithmetic
import WordMachine.Proofs.Sweeping
import WordMachine.Proofs.Construction
import WordMachine.Proofs.InstructionText
