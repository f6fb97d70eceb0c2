import Formula.Main
import Formula.Proofs.Accelerated.Correctness
import Formula.Proofs.Lexing.Longest
import Formula.Proofs.Rendering.Correctness
import Formula.Proofs.Lexing.Tiling
import Formula.Proofs.Reading.Names
import Formula.Proofs.Scope.FirstUse
import Formula.Proofs.Scope.Flattening
import Formula.Proofs.Accelerated.EmptyColumns
import Formula.Proofs.Evaluation.Stages
import Formula.Proofs.Evaluation.FirstFailure
import Formula.Proofs.Reading.Correspondence
import Formula.Proofs.Reading.Shared
import Formula.Proofs.Reading.Statements
import Formula.Proofs.Lexing.Offsets
import Formula.Proofs.Reading.Blame
import Formula.Proofs.Reading.Positions
import Formula.Proofs.Scope.Extension
import Formula.Proofs.Evaluation.Errors
import Formula.Proofs.Arithmetic.Integers
import Formula.Proofs.Real.Comparison
import Formula.Proofs.Elementwise.Broadcasting
import Formula.Proofs.Evaluation.Comparisons
import Formula.Proofs.Evaluation.Keywords
import Formula.Proofs.Evaluation.Registries
import Formula.Proofs.Arithmetic.Powers
import Formula.Proofs.Real.Conversion
import Formula.Proofs.Elementwise.Indexing
import Formula.Proofs.Documents.Namespaces
import Formula.Proofs.Real.Remainders
import Formula.Proofs.Elementwise.Inversion
import Formula.Proofs.Rendering.Quotation
import Formula.Proofs.Scope.Depth
import Formula.Proofs.Reading.Synonyms
import Formula.Proofs.Reading.Growth
import Formula.Proofs.Rendering.Bindings
import Formula.Proofs.Accelerated.WellFormed
import Formula.Proofs.Reading.Layout
