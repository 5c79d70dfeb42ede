import StaticTyping.Source.Builder
import StaticTyping.Options.Json
import StaticTyping.Proofs.Types.Canonical
import StaticTyping.Proofs.Completion
import StaticTyping.Proofs.Calls.Pairing
import StaticTyping.Proofs.Calls.Positional
import StaticTyping.Proofs.Output.Comparison
import StaticTyping.Proofs.Output.ConditionPolicy
import StaticTyping.Proofs.Output.UnionOrder
import StaticTyping.Proofs.Output.Imports
import StaticTyping.Proofs.Stored.Errors
import StaticTyping.Proofs.Order.Reordered
import StaticTyping.Proofs.TypeParams.Hygiene
import StaticTyping.Proofs.Distinct.Run
import StaticTyping.Proofs.Scopes.Narrowing
import StaticTyping.Proofs.Patterns.Exhaustive
import StaticTyping.Proofs.Inference.Once
import StaticTyping.Proofs.Hints
import StaticTyping.Proofs.Scopes.Compound
import StaticTyping.Proofs.Scopes.TypeNames
import StaticTyping.Proofs.Types.Substitution
import StaticTyping.Proofs.Literals.Arithmetic
import StaticTyping.Proofs.Literals.Range
import StaticTyping.Proofs.Types.Null
import StaticTyping.Proofs.Scopes.Clearing
import StaticTyping.Proofs.Scopes.Mutability
import StaticTyping.Proofs.Aliases.Guarded
import StaticTyping.Proofs.Scopes.Paths
