import SelectRouting.Text.WhiteSpace
import SelectRouting.Text.Alphabetic
import SelectRouting.Text.Numeric
import SelectRouting.Text.Unprintable
import SelectRouting.Text.GraphemeExtend
import SelectRouting.Text.DefaultIgnorable
import SelectRouting.Decimal.Shortest
import SelectRouting.Span
import SelectRouting.Text.Fold
import SelectRouting.Text.Escaped
import SelectRouting.Keyword
import SelectRouting.Token.Trivia
import SelectRouting.Token.Quoted
import SelectRouting.Token.Lexer
import SelectRouting.Expr.Level
import SelectRouting.Statement
import SelectRouting.Rule
import SelectRouting.Dialect
import SelectRouting.Grammar.Expression
import SelectRouting.Grammar.Select
import SelectRouting.Json.Reader
import SelectRouting.Json.Writer
import SelectRouting.HandOver
import SelectRouting.Proofs.Leaf
import SelectRouting.Proofs.Token.Order
import SelectRouting.Proofs.Trace.Run
import SelectRouting.Proofs.Token.Name
import SelectRouting.Proofs.Trace.Outcome
import SelectRouting.Proofs.Condition
import SelectRouting.Proofs.Condition.Scope
import SelectRouting.Proofs.Edits
import SelectRouting.Proofs.Tables
import SelectRouting.Proofs.Tables.Alias
import SelectRouting.Proofs.Nesting.Walk
import SelectRouting.Proofs.Nesting.Passing
import SelectRouting.Proofs.Pagination
import SelectRouting.Proofs.Meaning.Conditions
import SelectRouting.Proofs.Parameters.Order
import SelectRouting.Proofs.Parameters.Skipped
import SelectRouting.Proofs.Dialect.Extension
import SelectRouting.Proofs.Likeness.Layout
import SelectRouting.Proofs.Likeness.Case
import SelectRouting.Proofs.Likeness.Rule
import SelectRouting.Proofs.Token.Relexing
import SelectRouting.Proofs.Parameters.Counter
import SelectRouting.Proofs.Prefix.Rejection
import SelectRouting.Proofs.Prefix.Subquery
import SelectRouting.Proofs.Nesting.Balance
import SelectRouting.Proofs.Provenance
import SelectRouting.Proofs.Shape.Select
import SelectRouting.Proofs.Precedence.Written
import SelectRouting.Proofs.Precedence.Soundness
import SelectRouting.Proofs.Precedence.Printing
import SelectRouting.Proofs.Precedence.Reading
import SelectRouting.Proofs.Precedence.Parts
import SelectRouting.Proofs.Precedence.RoundTrip
import SelectRouting.Proofs.Condition.Conjuncts
import SelectRouting.Proofs.Condition.Rewriting
import SelectRouting.Proofs.Tables.RoundTrip
import SelectRouting.Proofs.Prior.Transparency
import SelectRouting.Proofs.Token.Place
import SelectRouting.Proofs.Token.Quotation
import SelectRouting.Proofs.Pagination.Literal
import SelectRouting.Proofs.Region
import SelectRouting.Proofs.Form.Model
import SelectRouting.Proofs.Discarded
import SelectRouting.Proofs.Progress.Select
import SelectRouting.Proofs.Wildcard.Select
import SelectRouting.Proofs.Renaming.Column
import SelectRouting.Proofs.Edits.Insertion
import SelectRouting.Proofs.HandOver
import SelectRouting.Proofs.Rule.Loading
