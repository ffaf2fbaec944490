import TreeGrammar.Stock
import TreeGrammar.Assembly
import TreeGrammar.Read.Tree
import TreeGrammar.Config.Text
import TreeGrammar.Proofs.Number.Nearest
import TreeGrammar.Proofs.Number.Shortest
import TreeGrammar.Proofs.Read.NormalForm
import TreeGrammar.Proofs.Read.Composition
import TreeGrammar.Proofs.Engine.Meaning
import TreeGrammar.Proofs.Engine.FirstMatch
import TreeGrammar.Proofs.Engine.WellFormed
import TreeGrammar.Proofs.Engine.Recursion
import TreeGrammar.Proofs.Engine.Identity
import TreeGrammar.Proofs.Engine.Calculator
import TreeGrammar.Proofs.Engine.Folding
import TreeGrammar.Proofs.Operator.Integer
import TreeGrammar.Proofs.Engine.Laziness
import TreeGrammar.Proofs.Engine.Vararg
import TreeGrammar.Proofs.Engine.CallBody
import TreeGrammar.Proofs.Tree.Equality
import TreeGrammar.Proofs.Engine.Copying
import TreeGrammar.Proofs.Engine.StaticDepth
import TreeGrammar.Proofs.Engine.Record
import TreeGrammar.Proofs.Engine.Likeness
import TreeGrammar.Proofs.Engine.Duality
import TreeGrammar.Proofs.Engine.Flattening
import TreeGrammar.Proofs.Engine.OperatorRoutes
import TreeGrammar.Proofs.Operator.Comparison
import TreeGrammar.Proofs.Engine.Unread
import TreeGrammar.Proofs.Layout.Widening
import TreeGrammar.Proofs.Layout.Colouring
import TreeGrammar.Proofs.Verdict.Visits
import TreeGrammar.Proofs.Read.Numeral
import TreeGrammar.Proofs.Toml.Line
import TreeGrammar.Proofs.Toml.Pair
import TreeGrammar.Proofs.Toml.Table
import TreeGrammar.Proofs.Config
