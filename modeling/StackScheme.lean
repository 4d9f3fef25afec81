import StackScheme.Arena.Outline
import StackScheme.Main
import StackScheme.Proofs.Arena.Forest
import StackScheme.Proofs.Arena.Links
import StackScheme.Proofs.Arena.Parents
import StackScheme.Proofs.Arena.Printing
import StackScheme.Proofs.Arena.Renaming
import StackScheme.Proofs.Atom.Spelling
import StackScheme.Proofs.Builtin.Arithmetic
import StackScheme.Proofs.Builtin.Division
import StackScheme.Proofs.Builtin.Divisors
import StackScheme.Proofs.Builtin.Equivalence
import StackScheme.Proofs.Builtin.StringOrder
import StackScheme.Proofs.Evaluator
import StackScheme.Proofs.Machine.Activations
import StackScheme.Proofs.Machine.Alignment
import StackScheme.Proofs.Machine.Applications
import StackScheme.Proofs.Machine.Callers
import StackScheme.Proofs.Machine.Correctness
import StackScheme.Proofs.Machine.Deliveries
import StackScheme.Proofs.Machine.Depth
import StackScheme.Proofs.Machine.Dispatches
import StackScheme.Proofs.Machine.Effects
import StackScheme.Proofs.Machine.FormSimulation
import StackScheme.Proofs.Machine.Inside
import StackScheme.Proofs.Machine.Layout
import StackScheme.Proofs.Machine.Levels
import StackScheme.Proofs.Machine.Limits
import StackScheme.Proofs.Machine.Makings
import StackScheme.Proofs.Machine.Refusals
import StackScheme.Proofs.Machine.Renaming
import StackScheme.Proofs.Machine.Runs
import StackScheme.Proofs.Machine.Safety
import StackScheme.Proofs.Machine.Simulation
import StackScheme.Proofs.Machine.TailCalls
import StackScheme.Proofs.Machine.TailPosition
import StackScheme.Proofs.Machine.Termination
import StackScheme.Proofs.Reader.Grammar
import StackScheme.Proofs.Reader.Growth
import StackScheme.Proofs.Reader.RoundTrip
import StackScheme.Proofs.Session.Accounting
import StackScheme.Proofs.Session.Grouping
import StackScheme.Proofs.Session.Identity
import StackScheme.Proofs.Session.Lines
import StackScheme.Proofs.Session.Procedures
import StackScheme.Proofs.Session.Rejection
import StackScheme.Proofs.Session.Safety
import StackScheme.Proofs.Session.Scopes
import StackScheme.Proofs.Session.WholeTexts
import StackScheme.Proofs.Token.Lexing
import StackScheme.Proofs.Token.Pieces
import StackScheme.Proofs.Value.Renaming
import StackScheme.Shell.Run
