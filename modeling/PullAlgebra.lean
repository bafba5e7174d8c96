import PullAlgebra.Main
import PullAlgebra.Pipeline
import PullAlgebra.Proofs.Pipeline.Asking
import PullAlgebra.Proofs.Pipeline.Cursor
import PullAlgebra.Proofs.Pipeline.Layout
import PullAlgebra.Proofs.Pipeline.Restart
import PullAlgebra.QueryError
import PullAlgebra.Proofs.Pipeline.Phases
import PullAlgebra.Proofs.Pipeline.Protocol
import PullAlgebra.Proofs.Pipeline.Faults
import PullAlgebra.Proofs.Pipeline.Transparency
import PullAlgebra.Proofs.Relation.Growth
import PullAlgebra.Proofs.Source.Bounds
import PullAlgebra.Proofs.Pipeline.Bounds
import PullAlgebra.Proofs.Schema.Collision
import PullAlgebra.Proofs.Source.CrossJoin
import PullAlgebra.Proofs.Pipeline.Joins
import PullAlgebra.Proofs.Benchmark.Measures
import PullAlgebra.Proofs.Relation.Texts
import PullAlgebra.Proofs.Benchmark.Arguments
import PullAlgebra.Proofs.Benchmark.CyclicRelation
import PullAlgebra.Proofs.Benchmark.Remainders
import PullAlgebra.Proofs.Benchmark.Table
import PullAlgebra.Proofs.Tuple.Names
import PullAlgebra.Proofs.Relation.Acceptance
import PullAlgebra.Proofs.Expression.Binding
import PullAlgebra.Proofs.Expression.Typing
import PullAlgebra.Proofs.Pipeline.TypedJoins
import PullAlgebra.Proofs.Value.DoubleOrder
import PullAlgebra.Proofs.Value.Rounding
import PullAlgebra.Proofs.Value.NumericOrder
import PullAlgebra.Proofs.Expression.Comparisons
import PullAlgebra.Proofs.Expression.Formulas
import PullAlgebra.Proofs.Expression.IntegerArithmetic
import PullAlgebra.Proofs.Value.Nearest
import PullAlgebra.Proofs.Value.ExactNumbers
import PullAlgebra.Proofs.Value.Shortest
import PullAlgebra.Proofs.Value.CorrectRounding
import PullAlgebra.Proofs.Value.Notation
import PullAlgebra.Proofs.Relation.Rendered
import PullAlgebra.Proofs.Tuple.Joining
import PullAlgebra.Proofs.Tuple.Operations
import PullAlgebra.Proofs.Tuple.CanonicalForm
import PullAlgebra.Proofs.Tuple.Formation
import PullAlgebra.Proofs.Tuple.Composition
import PullAlgebra.Proofs.Pipeline.Fusion
import PullAlgebra.Proofs.Source.SwappedJoin
import PullAlgebra.Proofs.Relation.Product
import PullAlgebra.Proofs.Pipeline.Runs
import PullAlgebra.Proofs.Relation.ColumnOrder
import PullAlgebra.Proofs.Relation.Pushdown
import PullAlgebra.Proofs.Loops
import PullAlgebra.Proofs.Pipeline.Termination
import PullAlgebra.Proofs.Pipeline.Collecting
import PullAlgebra.Proofs.Value.IntegerTexts
import PullAlgebra.Proofs.Value.PlainDecimals
import PullAlgebra.Proofs.Value.WholeDoubles
import PullAlgebra.Proofs.Schema.LinearSearch
import PullAlgebra.Proofs.Source.Grouping
import PullAlgebra.Proofs.Tuple.Keys
import PullAlgebra.Proofs.Benchmark.Timing
