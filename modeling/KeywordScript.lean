import KeywordScript.Main
import KeywordScript.Plugin.Reflection
import KeywordScript.Proofs.Stack
import KeywordScript.Proofs.Postcondition
import KeywordScript.Proofs.Reader
import KeywordScript.Proofs.Discipline
import KeywordScript.Proofs.Scope
import KeywordScript.Proofs.Fuel
import KeywordScript.Proofs.Job
import KeywordScript.Proofs.Unwinding
import KeywordScript.Proofs.Depth
import KeywordScript.Proofs.Progress
import KeywordScript.Proofs.Termination
import KeywordScript.Proofs.Callable
import KeywordScript.Proofs.Coupling
import KeywordScript.Proofs.Shadowing
import KeywordScript.Proofs.Pointwise
import KeywordScript.Proofs.Isolation
import KeywordScript.Proofs.Lines
import KeywordScript.Proofs.Diagnostics
import KeywordScript.Proofs.Blocking
import KeywordScript.Proofs.Composition
import KeywordScript.Proofs.Limit
import KeywordScript.Proofs.Loading
import KeywordScript.Proofs.Operation
import KeywordScript.Proofs.Parameter
import KeywordScript.Proofs.Writing
import KeywordScript.Proofs.LoopVariable
import KeywordScript.Proofs.CountingLoop
import KeywordScript.Proofs.Sequence
import KeywordScript.Proofs.Atomicity
import KeywordScript.Proofs.Blame
import KeywordScript.Proofs.Integer
import KeywordScript.Proofs.Member
import KeywordScript.Proofs.Canonical
import KeywordScript.Proofs.Document
import KeywordScript.Proofs.Assignment
import KeywordScript.Proofs.NumberOrder
import KeywordScript.Proofs.Equality
import KeywordScript.Proofs.TextOrder
import KeywordScript.Proofs.Relation
import KeywordScript.Proofs.Leaves
import KeywordScript.Proofs.Descent
import KeywordScript.Proofs.Printing
import KeywordScript.Proofs.Importing
import KeywordScript.Proofs.Stages
