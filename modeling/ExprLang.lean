import ExprLang.Text.Bytes
import ExprLang.Text.CharClass
import ExprLang.Text.Cursor
import ExprLang.Text.Emoji
import ExprLang.Text.Ligature
import ExprLang.Text.Lines
import ExprLang.Text.Span
import ExprLang.Text.Width
import ExprLang.Text.WidthClass
import ExprLang.Number.Binary64
import ExprLang.Number.Decimal
import ExprLang.Number.Rounding
import ExprLang.Number.Shortest
import ExprLang.Operator
import ExprLang.Token.Basic
import ExprLang.Token.Scan
import ExprLang.Token.Lexer
import ExprLang.Tree.Basic
import ExprLang.Tree.Print
import ExprLang.Grammar.Error
import ExprLang.Grammar.Parse
import ExprLang.Grammar.Expression
import ExprLang.Grammar.Progress
import ExprLang.Grammar.Statement
import ExprLang.Diagnostic.Style
import ExprLang.Diagnostic.Basic
import ExprLang.Diagnostic.Rendering
import ExprLang.Diagnostic.Render
import ExprLang.Reporter
import ExprLang.Parser
import ExprLang.Proofs.Grammar
import ExprLang.Proofs.Stream
import ExprLang.Proofs.Climbing
import ExprLang.Proofs.Attempts
import ExprLang.Proofs.Acceptance
import ExprLang.Proofs.TokenOrder
import ExprLang.Proofs.Blame
import ExprLang.Proofs.Recovery
import ExprLang.Proofs.Lexing
import ExprLang.Proofs.RoundTrip
import ExprLang.Proofs.Height
import ExprLang.Proofs.HighTrees
import ExprLang.Proofs.ViablePrefix
import ExprLang.Proofs.TokenPlaces
import ExprLang.Proofs.LexicalGrammar
import ExprLang.Proofs.Slices
import ExprLang.Proofs.SpanFidelity
import ExprLang.Proofs.Places
import ExprLang.Proofs.Blocks
import ExprLang.Proofs.PrettyRun
import ExprLang.Proofs.SideBySide
import ExprLang.Proofs.Joining
import ExprLang.Proofs.Restart
import ExprLang.Proofs.Layout
import ExprLang.Proofs.SpanNesting
import ExprLang.Proofs.LineColumn
import ExprLang.Proofs.IssueOrder
import ExprLang.Proofs.BadSnippets
import ExprLang.Proofs.LineEndings
import ExprLang.Proofs.BlockText
import ExprLang.Proofs.UnderlinedText
import ExprLang.Proofs.OpenStyles
import ExprLang.Proofs.Respacing
import ExprLang.Proofs.Unambiguity
import ExprLang.Proofs.Reporting
import ExprLang.Proofs.InfixOrder
import ExprLang.Proofs.CallStack
import ExprLang.Proofs.NestingBounds
