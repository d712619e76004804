import QoreSyntax.Token.Reader
import QoreSyntax.Tree.Check
import QoreSyntax.Diagnostic
import QoreSyntax.Grammar.State
import QoreSyntax.Grammar.Parser
import QoreSyntax.Grammar.Recovery
import QoreSyntax.Grammar.Lookahead
import QoreSyntax.Grammar.Name
import QoreSyntax.Grammar.Parameter
import QoreSyntax.Grammar.Sequence
import QoreSyntax.Grammar.Expression
import QoreSyntax.Grammar.Script
import QoreSyntax.Session.Holder
import QoreSyntax.Tree.Outline
import QoreSyntax.Json.Tree
import QoreSyntax.Main
import QoreSyntax.Proofs.Node.Preorder
import QoreSyntax.Proofs.Source.Order
import QoreSyntax.Proofs.Tree.Enclosure
import QoreSyntax.Proofs.Tree.Lookup
import QoreSyntax.Proofs.Token.Lexeme
import QoreSyntax.Proofs.Token.Stream
import QoreSyntax.Proofs.Grammar.Run
import QoreSyntax.Proofs.Grammar.Contract
import QoreSyntax.Proofs.Grammar.Extent
import QoreSyntax.Proofs.Grammar.Extent.Script
import QoreSyntax.Proofs.Grammar.Iteration
import QoreSyntax.Grammar.Machine
import QoreSyntax.Proofs.Grammar.Machine
import QoreSyntax.Proofs.Grammar.Taking
import QoreSyntax.Proofs.Token.Shift
import QoreSyntax.Proofs.Grammar.Report
import QoreSyntax.Proofs.Source.Offset
import QoreSyntax.Proofs.Token.Gap
import QoreSyntax.Proofs.Token.Tiling
import QoreSyntax.Proofs.Grammar.Reading
import QoreSyntax.Proofs.Token.Written
import QoreSyntax.Proofs.Expression.Tokens
import QoreSyntax.Proofs.Expression.Climbing
import QoreSyntax.Proofs.Grammar.Account
import QoreSyntax.Proofs.Grammar.Account.Declaration
import QoreSyntax.Proofs.Grammar.Account.Expression
import QoreSyntax.Proofs.Grammar.Account.Statement
import QoreSyntax.Proofs.Grammar.Blame
import QoreSyntax.Proofs.Grammar.Report.Order
import QoreSyntax.Proofs.Grammar.StartLine
import QoreSyntax.Proofs.Grammar.Nesting.Script
import QoreSyntax.Proofs.Grammar.Concatenation
import QoreSyntax.Proofs.Grammar.Reading.Items
import QoreSyntax.Proofs.Grammar.Root
import QoreSyntax.Proofs.Expression.Term
import QoreSyntax.Proofs.TypeName.Ahead
import QoreSyntax.Proofs.TypeName.Reading
import QoreSyntax.Proofs.TypeName.Parameter
import QoreSyntax.Proofs.Statement.Part
import QoreSyntax.Proofs.Statement.Reading
import QoreSyntax.Proofs.Declaration.Tree
import QoreSyntax.Proofs.Declaration.Part
import QoreSyntax.Proofs.Declaration.Member
import QoreSyntax.Proofs.Declaration.Reading
import QoreSyntax.Proofs.Grammar.Reading.Mistake
import QoreSyntax.Proofs.Grammar.Conservation.Script
import QoreSyntax.Proofs.Grammar.Schema.Script
import QoreSyntax.Proofs.Session.History
import QoreSyntax.Proofs.CommandLine.Find
import QoreSyntax.Proofs.Token.Unterminated
import QoreSyntax.Proofs.Grammar.Bracing.Unmatched
import QoreSyntax.Proofs.Grammar.Bracing.Repetition
import QoreSyntax.Proofs.TypeName.RoundTrip
import QoreSyntax.Proofs.TypeName.Commitment
import QoreSyntax.Proofs.Grammar.Naming
import QoreSyntax.Proofs.Statement.Overdeep
import QoreSyntax.Proofs.Token.LineBreak
import QoreSyntax.Proofs.Token.StringLiteral
import QoreSyntax.Proofs.Token.RegexLiteral
import QoreSyntax.Proofs.Token.Alone
import QoreSyntax.Proofs.Token.Spelling
import QoreSyntax.Proofs.Token.Directive
import QoreSyntax.Proofs.Token.IntegerLiteral
import QoreSyntax.Proofs.CommandLine.Check
import QoreSyntax.Proofs.Tree.Separation
import QoreSyntax.Proofs.Grammar.Skipping
import QoreSyntax.Proofs.Grammar.Level
