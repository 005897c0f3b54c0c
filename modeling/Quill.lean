import Quill.Command
import Quill.Main
import Quill.Proofs.Grammar.Language
import Quill.Proofs.Layout.Meaning
import Quill.Proofs.Scope.Distances
import Quill.Proofs.Machine.Agreement
import Quill.Proofs.Token.Lossless
import Quill.Proofs.Layout.Rendering
import Quill.Proofs.Machine.Identity
import Quill.Proofs.Machine.Balance
import Quill.Proofs.Machine.Limit
import Quill.Proofs.Tree.Survivors
import Quill.Proofs.Layout.Concatenation
import Quill.Proofs.Machine.Session
import Quill.Proofs.Machine.Truncation
import Quill.Proofs.Layout.Lines
import Quill.Proofs.Machine.Blame
import Quill.Proofs.Machine.Staging
import Quill.Proofs.Scope.Entries
import Quill.Proofs.Machine.Discipline
import Quill.Proofs.Machine.Statements
import Quill.Proofs.Grammar.Restoring
import Quill.Proofs.Grammar.Charging
import Quill.Proofs.Grammar.Recovery
import Quill.Proofs.Machine.Assigning
import Quill.Proofs.Grammar.Termination
import Quill.Proofs.Layout.Offences
import Quill.Proofs.Layout.Sequel
import Quill.Proofs.Machine.Counting
import Quill.Proofs.Machine.Vacancy
import Quill.Proofs.Grammar.Numbers
import Quill.Proofs.Machine.Access
import Quill.Proofs.Machine.Births
import Quill.Proofs.Token.Surplus
