import LessSheet.Compile
import LessSheet.Proofs.Scope.Mention
import LessSheet.Proofs.Script.Steps
import LessSheet.Proofs.Scope.Growth
import LessSheet.Proofs.Script.Safety
import LessSheet.Proofs.Script.Contract
import LessSheet.Proofs.Expansion.Contract
import LessSheet.Proofs.Expansion.Frame
import LessSheet.Proofs.Expansion.Limit
import LessSheet.Proofs.Scope.Renaming
import LessSheet.Proofs.Scope.Shift
import LessSheet.Proofs.Scope.Parallel
import LessSheet.Proofs.Scope.Reading
import LessSheet.Proofs.Script.Mirror
import LessSheet.Proofs.Expansion.Mirror
import LessSheet.Proofs.Expansion.Repeat
import LessSheet.Proofs.Scope.Arising
import LessSheet.Proofs.Scope.Sight
import LessSheet.Proofs.Css.Flattening
import LessSheet.Proofs.Expansion.Choice
import LessSheet.Proofs.Expansion.Bodies
import LessSheet.Proofs.Binding.Arity
import LessSheet.Proofs.Expansion.Trials
import LessSheet.Proofs.Scope.Join
import LessSheet.Proofs.Scope.Rollback
import LessSheet.Proofs.Scope.Staging
import LessSheet.Proofs.Expansion.Namespaces
import LessSheet.Proofs.Guard.Phases
import LessSheet.Proofs.Expansion.Depth
import LessSheet.Proofs.Expansion.Plan
import LessSheet.Proofs.Expansion.Termination
import LessSheet.Proofs.Grammar.Productions
import LessSheet.Proofs.Grammar.Totality
import LessSheet.Proofs.Css.Separation
import LessSheet.Proofs.Css.Strings
import LessSheet.Proofs.Css.Comments
import LessSheet.Proofs.Expansion.Comments
import LessSheet.Proofs.Css.Legible
import LessSheet.Proofs.Binding.Fit
import LessSheet.Proofs.Expansion.Detached
import LessSheet.Proofs.Expansion.Imports
import LessSheet.Proofs.Scope.Likeness
import LessSheet.Proofs.Scope.Evaluation
import LessSheet.Proofs.Script.Likeness
import LessSheet.Proofs.Css.Importance
import LessSheet.Proofs.Expansion.Likeness
import LessSheet.Proofs.Expansion.Relocation
import LessSheet.Proofs.Grammar.Shape
import LessSheet.Proofs.Grammar.Leaves
import LessSheet.Proofs.Expansion.Importance
import LessSheet.Proofs.Expansion.Marking
import LessSheet.Proofs.Grammar.Written
import LessSheet.Proofs.Grammar.Precedence
import LessSheet.Proofs.Grammar.Arithmetic
import LessSheet.Proofs.Grammar.GuardText
import LessSheet.Proofs.Grammar.CallText
import LessSheet.Proofs.Grammar.StatementText
import LessSheet.Proofs.Binding.Isolation
import LessSheet.Proofs.Binding.Delivery
import LessSheet.Proofs.Text.Interpolation
import LessSheet.Proofs.Grammar.RawText
import LessSheet.Proofs.Grammar.PlaceholderText
import LessSheet.Proofs.Grammar.CommentText
import LessSheet.Proofs.Grammar.NegationText
import LessSheet.Proofs.Scope.Nearest
import LessSheet.Proofs.Scope.Traversal
