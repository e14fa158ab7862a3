import ScriptLint.Text.Span
import ScriptLint.Text.Bytes
import ScriptLint.Text.Lines
import ScriptLint.Text.Blank
import ScriptLint.Text.Letters
import ScriptLint.Number.Decimal
import ScriptLint.Number.Binary64
import ScriptLint.Number.Shortest
import ScriptLint.Types.Flags
import ScriptLint.Types.Ty
import ScriptLint.Types.Assignable
import ScriptLint.Types.Truthiness
import ScriptLint.Token.Basic
import ScriptLint.Token.Fault
import ScriptLint.Token.Munch
import ScriptLint.Token.Scan
import ScriptLint.Syntax.Operator
import ScriptLint.Syntax.Basic
import ScriptLint.Syntax.Outline
import ScriptLint.Syntax.Error
import ScriptLint.Parsing.State
import ScriptLint.Parsing.TypeExpr
import ScriptLint.Parsing.Expression
import ScriptLint.Parsing.Statement
import ScriptLint.Parsing.Script
import ScriptLint.Diagnostic.Basic
import ScriptLint.Event
import ScriptLint.Typing.Problem
import ScriptLint.Typing.Scope
import ScriptLint.Typing.TypeExpr
import ScriptLint.Typing.State
import ScriptLint.Typing.Infer
import ScriptLint.Typing.Check
import ScriptLint.Typing.CheckedScript
import ScriptLint.Failure
import ScriptLint.Diagnostic.Printer
import ScriptLint.Rule.Basic
import ScriptLint.Rule.BooleanNaming
import ScriptLint.Rule.Registry
import ScriptLint.Lint
import ScriptLint.Service.Basic
import ScriptLint.Service.Workspace
import ScriptLint.Service.Plugin
import ScriptLint.Report
import ScriptLint.Proofs.Token.Places
import ScriptLint.Proofs.Token.Signs
import ScriptLint.Proofs.Token.Joining
import ScriptLint.Proofs.Syntax.Derivation
import ScriptLint.Proofs.Syntax.Grouping
import ScriptLint.Proofs.Syntax.Depth
import ScriptLint.Proofs.Parsing.Run
import ScriptLint.Proofs.Parsing.Reads
import ScriptLint.Proofs.Parsing.SoundExpression
import ScriptLint.Proofs.Parsing.SoundStatement
import ScriptLint.Proofs.Syntax.Declared
import ScriptLint.Proofs.Rule.Findings
import ScriptLint.Proofs.Layout.Alignment
import ScriptLint.Proofs.Layout.Reading
import ScriptLint.Proofs.Layout.Parsing
import ScriptLint.Proofs.Layout.Checker
import ScriptLint.Proofs.Layout.Typing
import ScriptLint.Proofs.Layout.Lint
import ScriptLint.Proofs.Layout.Recovery
import ScriptLint.Proofs.Syntax.Levels
import ScriptLint.Proofs.Parsing.Yields
import ScriptLint.Proofs.Parsing.CompleteExpression
import ScriptLint.Proofs.Parsing.CompleteStatement
import ScriptLint.Proofs.Parsing.Ends
import ScriptLint.Proofs.Parsing.Depth
import ScriptLint.Proofs.Parsing.Tower
import ScriptLint.Proofs.Parsing.Isolation
import ScriptLint.Proofs.Service.History
import ScriptLint.Proofs.Syntax.Names
import ScriptLint.Proofs.Typing.Lookups
import ScriptLint.Proofs.Typing.Footprints
import ScriptLint.Proofs.Typing.Locality
import ScriptLint.Proofs.Typing.Hoisting
import ScriptLint.Proofs.Parsing.Faults
import ScriptLint.Proofs.Types.Built
import ScriptLint.Proofs.Syntax.Sites
import ScriptLint.Proofs.Parsing.Positions
import ScriptLint.Proofs.Typing.Course
import ScriptLint.Proofs.Typing.Visits
import ScriptLint.Proofs.Typing.UnknownNames
import ScriptLint.Proofs.Typing.DeclaredTypes
import ScriptLint.Proofs.Layout.Bounds
import ScriptLint.Proofs.Service.Stacks
import ScriptLint.Proofs.Parsing.Sequel
import ScriptLint.Proofs.Parsing.SequelStatement
import ScriptLint.Proofs.Layout.Concatenation
import ScriptLint.Proofs.Syntax.Height
import ScriptLint.Proofs.Parsing.Height
import ScriptLint.Proofs.Types.Depth
import ScriptLint.Proofs.Typing.DeepTypes
import ScriptLint.Proofs.Typing.CallDepth
import ScriptLint.Proofs.Text.Partial
import ScriptLint.Proofs.Token.Partial
import ScriptLint.Proofs.Typing.Trials
import ScriptLint.Proofs.Diagnostic.Partial
import ScriptLint.Proofs.Types.Members
import ScriptLint.Proofs.Types.NormalForm
import ScriptLint.Proofs.Types.Assignability
import ScriptLint.Proofs.Types.Transitivity
import ScriptLint.Proofs.Syntax.Renaming
import ScriptLint.Proofs.Typing.Renaming
import ScriptLint.Proofs.Typing.Equivariance
import ScriptLint.Proofs.Types.UnionLaws
import ScriptLint.Proofs.Types.Widening
import ScriptLint.Proofs.Types.LogicalParts
import ScriptLint.Proofs.Number.Zero
import ScriptLint.Proofs.Types.LiteralTruth
import ScriptLint.Proofs.Types.OneLine
import ScriptLint.Proofs.Parsing.Ranges
import ScriptLint.Proofs.Typing.Remarks
import ScriptLint.Proofs.Typing.Returns
import ScriptLint.Proofs.Typing.Redeclarations
import ScriptLint.Proofs.Typing.ScopeTable
import ScriptLint.Proofs.Typing.Tabled
import ScriptLint.Proofs.Typing.OneLine
import ScriptLint.Proofs.Token.Table
import ScriptLint.Proofs.Token.LongestMatch
import ScriptLint.Proofs.Token.Tiling
import ScriptLint.Proofs.Token.Respacing
import ScriptLint.Proofs.Token.Quoting
import ScriptLint.Proofs.Token.Closing
import ScriptLint.Proofs.Syntax.TypeRows
import ScriptLint.Proofs.Syntax.Texts
import ScriptLint.Proofs.Parsing.Unions
import ScriptLint.Proofs.Rule.Registered
import ScriptLint.Proofs.Rule.Independence
import ScriptLint.Proofs.Text.Lines
import ScriptLint.Proofs.Text.OneLine
import ScriptLint.Proofs.Diagnostic.Positions
import ScriptLint.Proofs.Diagnostic.Underline
import ScriptLint.Proofs.Diagnostic.FourLines
import ScriptLint.Proofs.Parsing.TokenByToken
import ScriptLint.Proofs.Parsing.Matches
import ScriptLint.Proofs.Parsing.Descent
import ScriptLint.Proofs.Parsing.Progress
import ScriptLint.Proofs.Typing.ScopeSearch
import ScriptLint.Proofs.Typing.Plans
import ScriptLint.Proofs.Typing.Reachable
