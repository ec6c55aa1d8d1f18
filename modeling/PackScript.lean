import PackScript.Build
import PackScript.Cli.Compile
import PackScript.Cli.Flags
import PackScript.Cli.Inspect
import PackScript.Cli.Outcome
import PackScript.Cli.Repl
import PackScript.Command.Basic
import PackScript.Command.Place
import PackScript.Disk
import PackScript.Generate.Block
import PackScript.Generate.Call
import PackScript.Generate.Expr
import PackScript.Generate.Result
import PackScript.Generate.State
import PackScript.Generate.Visible
import PackScript.Layout.BlockRemark
import PackScript.Layout.Constraint
import PackScript.Layout.DocText
import PackScript.Layout.Documentation
import PackScript.Layout.Glyph
import PackScript.Layout.Head
import PackScript.Layout.ImportOrder
import PackScript.Layout.Line
import PackScript.Layout.Page
import PackScript.Layout.Preamble
import PackScript.Layout.Remark
import PackScript.Layout.Word
import PackScript.Main
import PackScript.Pack.Basic
import PackScript.Pack.Embedding
import PackScript.Program.Expr
import PackScript.Program.ExprParser
import PackScript.Program.Parser
import PackScript.Program.Printer
import PackScript.Program.Signature
import PackScript.Program.Stmt
import PackScript.Program.Value
import PackScript.Scope.Basic
import PackScript.Scope.Overload
import PackScript.Scope.Stack
import PackScript.Session
import PackScript.Source.Diagnostic
import PackScript.Source.Report
import PackScript.Source.Span
import PackScript.Text.Blank
import PackScript.Text.Bytes
import PackScript.Text.CharacterClass
import PackScript.Text.Decimal
import PackScript.Text.Folding
import PackScript.Text.Json
import PackScript.Text.LowerCase
import PackScript.Text.Path
import PackScript.Text.Quoted
import PackScript.Text.Suggestion
import PackScript.Text.UpperCase
import PackScript.Text.Utf8
import PackScript.Token.Basic
import PackScript.Token.Json
import PackScript.Token.Lexer
import PackScript.Proofs.Generation.Outcome
import PackScript.Proofs.Generation.Reached
import PackScript.Proofs.Generation.Course
import PackScript.Proofs.Generation.CallCourse
import PackScript.Proofs.Generation.ExprCourse
import PackScript.Proofs.Generation.BlockCourse
import PackScript.Proofs.Generation.Heights
import PackScript.Proofs.Runtime.Levels
import PackScript.Proofs.Generation.Roles
import PackScript.Proofs.Generation.Placement
import PackScript.Proofs.Runtime.Addressing
import PackScript.Proofs.Syntax.Bare
import PackScript.Proofs.Syntax.CommandLine
import PackScript.Proofs.Syntax.Lexemes
import PackScript.Proofs.Syntax.Proper
import PackScript.Proofs.Syntax.Numeral
import PackScript.Proofs.Syntax.Spelling
import PackScript.Proofs.Syntax.PrintedText
import PackScript.Proofs.Syntax.ExprReading
import PackScript.Proofs.Syntax.HoleReading
import PackScript.Proofs.Syntax.SignatureReading
import PackScript.Proofs.Syntax.StmtReading
import PackScript.Proofs.Syntax.StmtReadingBack
import PackScript.Proofs.Syntax.RoundTrip
import PackScript.Proofs.Syntax.Parts
import PackScript.Proofs.Syntax.Derivation
import PackScript.Proofs.Syntax.ExprDerivation
import PackScript.Proofs.Syntax.HoleDerivation
import PackScript.Proofs.Syntax.SignatureDerivation
import PackScript.Proofs.Syntax.StmtDerivation
import PackScript.Proofs.Generation.ExprOrderly
import PackScript.Proofs.Generation.BlockOrderly
import PackScript.Proofs.Runtime.Arithmetic
import PackScript.Proofs.Generation.Confinement
import PackScript.Proofs.Generation.ExprConfinement
import PackScript.Proofs.Generation.BlockConfinement
import PackScript.Proofs.Generation.Unwinding
import PackScript.Proofs.Generation.Isolation
import PackScript.Proofs.Generation.FileTable
import PackScript.Proofs.Generation.DeclarationOrder
import PackScript.Proofs.Syntax.Displacement
import PackScript.Proofs.Syntax.Joining
import PackScript.Proofs.Syntax.Continuation
import PackScript.Proofs.Generation.Law
import PackScript.Proofs.Generation.ExprLaw
import PackScript.Proofs.Generation.BlockLaw
import PackScript.Proofs.Syntax.FinalErrors
import PackScript.Proofs.Generation.SingleLines
import PackScript.Proofs.Generation.Procedures
import PackScript.Proofs.Generation.Termination
import PackScript.Proofs.Scope.Worklist
import PackScript.Proofs.Generation.Descent
import PackScript.Proofs.Scope.BestFit
import PackScript.Proofs.Scope.Leaving
import PackScript.Proofs.Runtime.Execution
import PackScript.Proofs.Generation.CurrentFile
import PackScript.Proofs.Runtime.Conditionals
import PackScript.Proofs.Generation.Provenance
import PackScript.Proofs.Runtime.Calls
import PackScript.Proofs.Syntax.Tiling
import PackScript.Proofs.Syntax.LineBreaks
import PackScript.Proofs.Syntax.Refusal
import PackScript.Proofs.Syntax.HoleAgreement
import PackScript.Proofs.Syntax.Places
import PackScript.Proofs.Syntax.ErrorPlaces
import PackScript.Proofs.Generation.Blame
import PackScript.Proofs.Generation.ExprBlame
import PackScript.Proofs.Generation.BlockBlame
import PackScript.Proofs.Generation.Preamble
import PackScript.Proofs.Generation.ErrorSpans
import PackScript.Proofs.Syntax.Completion
import PackScript.Proofs.Session.Changes
import PackScript.Proofs.Pack.Paths
import PackScript.Proofs.Syntax.Progress
import PackScript.Proofs.Scope.Signatures
import PackScript.Proofs.Generation.Typings
import PackScript.Proofs.Text.EditDistance
import PackScript.Proofs.Scope.KeyTexts
import PackScript.Proofs.Text.Hints
import PackScript.Proofs.Generation.SpecializationKeys
import PackScript.Proofs.Scope.BodyKey
import PackScript.Proofs.Scope.Leads
import PackScript.Proofs.Syntax.FunctionPlaces
import PackScript.Proofs.Generation.Invariants
import PackScript.Proofs.Generation.History
import PackScript.Proofs.Generation.SharedBodies
