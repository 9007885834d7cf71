import Bindery.Ast.Builder
import Bindery.Ast.Encode
import Bindery.Command.FileTree
import Bindery.Main
import Bindery.Proofs.Ast.Tree
import Bindery.Proofs.Ast.WellFormed
import Bindery.Proofs.Json.Printing
import Bindery.Proofs.Json.Record
import Bindery.Proofs.Ast.Dump
import Bindery.Proofs.Model.Frame
import Bindery.Proofs.Model.Walk
import Bindery.Proofs.Model.Arena
import Bindery.Proofs.Model.Fresh
import Bindery.Proofs.Model.Placement
import Bindery.Proofs.Search
import Bindery.Proofs.Model.Meaning
import Bindery.Proofs.Model.Coherence
import Bindery.Proofs.Model.Asking
import Bindery.Proofs.Model.Dependency
import Bindery.Proofs.Model.Ending
import Bindery.Proofs.Model.Naming
import Bindery.Proofs.Model.Triple
import Bindery.Proofs.Model.Reach
import Bindery.Proofs.Model.Agreement
import Bindery.Proofs.Session
import Bindery.Proofs.Build
import Bindery.Proofs.Binding.Successor
import Bindery.Proofs.Binding.Frontier
import Bindery.Proofs.Binding.Closure
import Bindery.Proofs.Binding.Sorting
import Bindery.Proofs.Binding.Order
import Bindery.Proofs.Binding.Plan
import Bindery.Proofs.Binding.Access
import Bindery.Proofs.Binding.Ending
import Bindery.Proofs.Binding.Agreement
import Bindery.Proofs.History
import Bindery.Proofs.Binding.Strengthening
import Bindery.Proofs.Ownership
import Bindery.Proofs.Acceptance
import Bindery.Proofs.Occurrence
import Bindery.Proofs.Refusal
import Bindery.Proofs.Strict.Unit
import Bindery.Proofs.Strict.Model
import Bindery.Proofs.Strict.Build
import Bindery.Proofs.Strict.Question
import Bindery.Proofs.Strict.Resolution
import Bindery.Proofs.Strict.Dependency
import Bindery.Proofs.Strict.Closure
import Bindery.Proofs.Strict.Plan
import Bindery.Proofs.Strict.Session
import Bindery.Proofs.Lookup
import Bindery.Proofs.Pointers
import Bindery.Proofs.Command.Output
import Bindery.Proofs.Command.Reports
import Bindery.Proofs.Accounting
import Bindery.Proofs.Callable
import Bindery.Proofs.Declining
import Bindery.Proofs.Reporting
import Bindery.Proofs.Binding.Layering
import Bindery.Proofs.Aliases
import Bindery.Proofs.Bases
import Bindery.Proofs.Undisturbed
import Bindery.Proofs.Text.Signature
import Bindery.Proofs.Listing
import Bindery.Proofs.Builder
import Bindery.Proofs.Casters
import Bindery.Proofs.Paths
import Bindery.Proofs.Binding.Outline
import Bindery.Proofs.Ast.Spelling
