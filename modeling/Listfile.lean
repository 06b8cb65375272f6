import Listfile.Text.Blank
import Listfile.Text.Ascii
import Listfile.Text.CodeSet
import Listfile.Text.Visible
import Listfile.Text.Quoted
import Listfile.Text.Line
import Listfile.Text.Dump
import Listfile.Log
import Listfile.Reading
import Listfile.Span
import Listfile.Token
import Listfile.Token.Dump
import Listfile.Token.Scan
import Listfile.Signature
import Listfile.Signature.Dump
import Listfile.Fault
import Listfile.Statement
import Listfile.Node
import Listfile.Node.Fold
import Listfile.Node.Dump
import Listfile.Parse
import Listfile.ListValue
import Listfile.Context
import Listfile.Context.Dump
import Listfile.Expansion
import Listfile.Condition.Constant
import Listfile.Condition.Operand
import Listfile.Condition.Operator
import Listfile.Condition
import Listfile.Condition.Evaluation
import Listfile.Walk
import Listfile.Cli
import Listfile.Main
import Listfile.Proofs.Offsets
import Listfile.Proofs.Tiling
import Listfile.Proofs.ReaderRuns
import Listfile.Proofs.StatementGrammar
import Listfile.Proofs.BlockGrammar
import Listfile.Proofs.Folding
import Listfile.Proofs.ConditionMeaning
import Listfile.Proofs.ConditionGrammar
import Listfile.Proofs.LexicalShape
import Listfile.Proofs.Lexing
import Listfile.Proofs.ReferenceMeaning
import Listfile.Proofs.Shift
import Listfile.Proofs.Concatenation
import Listfile.Proofs.Subtrees
import Listfile.Proofs.Reparsing
import Listfile.Proofs.Reconstruction
import Listfile.Proofs.Resolving
import Listfile.Proofs.ListEncoding
import Listfile.Proofs.ContextIndependence
import Listfile.Proofs.ParenthesisBalance
import Listfile.Proofs.CommentSkipping
import Listfile.Proofs.ConditionSteps
import Listfile.Proofs.ConditionDepth
import Listfile.Proofs.Observation
import Listfile.Proofs.BlockSteps
import Listfile.Proofs.BlockDepth
import Listfile.Proofs.Placement
import Listfile.Proofs.NodeSpans
import Listfile.Proofs.Repair
import Listfile.Proofs.Locating
import Listfile.Proofs.Layout
import Listfile.Proofs.LineEndings
import Listfile.Proofs.UnquotedText
import Listfile.Proofs.ListMembership
import Listfile.Proofs.EscapePairs
import Listfile.Proofs.Numerals
import Listfile.Proofs.ConstantTruth
import Listfile.Proofs.ComparisonOrder
import Listfile.Proofs.PathForm
import Listfile.Proofs.CommandLookup
import Listfile.Proofs.NodeCount
import Listfile.Proofs.SeparateFiles
