import SumProduct.Expression.Evaluation
import SumProduct.Main
import SumProduct.Proofs.Differentiation
import SumProduct.Proofs.RoundTrip
import SumProduct.Proofs.Simplification
import SumProduct.Token.Lexer
import SumProduct.Proofs.PartialEvaluation
import SumProduct.Proofs.Segmentation
import SumProduct.Proofs.Lexing
import SumProduct.Proofs.CounterScan
import SumProduct.Proofs.Extension
import SumProduct.Proofs.ViablePrefix
import SumProduct.Proofs.CanonicalForm
import SumProduct.Proofs.DerivativeText
import SumProduct.Proofs.SimplifiedText
import SumProduct.Proofs.Lookahead
import SumProduct.Proofs.Transcripts
import SumProduct.Proofs.ErrorPlaces
import SumProduct.Proofs.Spacing
import SumProduct.Proofs.Requests
import SumProduct.Proofs.Leaves
import SumProduct.Proofs.Definitions
import SumProduct.Proofs.SameText
import SumProduct.Proofs.WrittenValues
import SumProduct.Proofs.CommandLines
import SumProduct.Proofs.Outcomes
import SumProduct.Proofs.AcceptedCommandLines
import SumProduct.Proofs.NormalForm
import SumProduct.Proofs.Literals
import SumProduct.Proofs.ArgumentOrder
import SumProduct.Proofs.TreesOfTexts
import SumProduct.Proofs.EvaluableParts
import SumProduct.Proofs.Monotonicity
import SumProduct.Proofs.WholeNumbers
import SumProduct.Proofs.ShortestDigits
import SumProduct.Proofs.TokenDisplay
import SumProduct.Proofs.DefinitionOrder
import SumProduct.Proofs.Groups
import SumProduct.Proofs.DoubleTexts
import SumProduct.Proofs.BindingTexts
import SumProduct.Proofs.BindingLists
import SumProduct.Proofs.DerivativeSize
import SumProduct.Proofs.Separation
import SumProduct.Proofs.OpenParentheses
