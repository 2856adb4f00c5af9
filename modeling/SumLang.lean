import SumLang.Code
import SumLang.CommandLine.Arguments
import SumLang.CommandLine.Failure
import SumLang.CommandLine.Footprint
import SumLang.CommandLine.Run
import SumLang.CommandLine.Stream
import SumLang.CommandLine.Surroundings
import SumLang.Comment
import SumLang.Compilation
import SumLang.Diagnostic
import SumLang.Dialect
import SumLang.Disk
import SumLang.Double
import SumLang.Double.Shortest
import SumLang.Double.Text
import SumLang.EnumLayout
import SumLang.EnumLayout.Declaration
import SumLang.EnumLayout.Registry
import SumLang.Grammar
import SumLang.Grammar.Cursor
import SumLang.Grammar.Expression
import SumLang.Grammar.Statement
import SumLang.Lowering
import SumLang.Lowering.Fault
import SumLang.Lowering.Format
import SumLang.Lowering.Literal
import SumLang.Lowering.Memory
import SumLang.Lowering.Settings
import SumLang.Lowering.Statement
import SumLang.Main
import SumLang.Node
import SumLang.Node.Equality
import SumLang.Node.Outline
import SumLang.Node.Walk
import SumLang.Options
import SumLang.Proofs.Acceptance
import SumLang.Proofs.CaseValues
import SumLang.Proofs.CommentSkipping
import SumLang.Proofs.DeclarationRules
import SumLang.Proofs.EnumOrder
import SumLang.Proofs.Recognition
import SumLang.Proofs.RoundTrip
import SumLang.Report
import SumLang.SourceFile
import SumLang.Text.Blank
import SumLang.Text.CodePoints
import SumLang.Text.ControlSequence
import SumLang.Text.LetterCase
import SumLang.Text.Lines
import SumLang.Text.Quoted
import SumLang.Text.Utf8
import SumLang.Token
import SumLang.Token.Scan
import SumLang.Proofs.SourceText
import SumLang.Proofs.EnoughFuel
import SumLang.Proofs.Tracking
import SumLang.Proofs.CorrectPrefix
import SumLang.Proofs.LexicalScope
import SumLang.Proofs.ProgramLayout
import SumLang.Proofs.PrintConversions
import SumLang.Proofs.LineText
import SumLang.Proofs.LegibleCode
import SumLang.Proofs.Nesting
import SumLang.Proofs.RuleSteps
import SumLang.Proofs.RecursiveDescent
import SumLang.Proofs.CallDepth
import SumLang.Proofs.NearestDouble
import SumLang.Proofs.ShortestDecimal
import SumLang.Proofs.FloatingConstant
import SumLang.Proofs.OutlineText
import SumLang.Proofs.FaithfulOutline
import SumLang.Proofs.Respacing
import SumLang.Proofs.Concatenation
import SumLang.Proofs.FaultPlaces
import SumLang.Proofs.GeneratorReuse
import SumLang.Proofs.TopLevelOrder
import SumLang.Proofs.StringContent
import SumLang.Proofs.BindingCapture
import SumLang.Proofs.Utf8Decoding
import SumLang.Proofs.FilePlaces
import SumLang.Proofs.RequestChoices
import SumLang.Proofs.RequestSteps
import SumLang.Proofs.CommandRuns
import SumLang.Proofs.CodeSections
import SumLang.Proofs.DefinitionOrder
import SumLang.Proofs.InputKept
import SumLang.Proofs.NameClashes
import SumLang.Proofs.PrecedenceClimbing
import SumLang.Proofs.CommentText
import SumLang.Proofs.MinimalParentheses
import SumLang.Proofs.ArithmeticConversions
import SumLang.Proofs.StatementText
