import SableSyntax.Text.Location
import SableSyntax.Text.Span
import SableSyntax.Text.Blank
import SableSyntax.Text.Lines
import SableSyntax.Text.Escape
import SableSyntax.Token
import SableSyntax.SyntaxError
import SableSyntax.Lexing.Cursor
import SableSyntax.Lexing.Lexer
import SableSyntax.Number.Decimal
import SableSyntax.Number.Binary64
import SableSyntax.Number.Shortest
import SableSyntax.Syntax.Operator
import SableSyntax.Syntax.TypeExpr
import SableSyntax.Syntax.Expression
import SableSyntax.Syntax.Program
import SableSyntax.Number.Literal
import SableSyntax.Trace
import SableSyntax.Parsing.Parser
import SableSyntax.Parsing.Expression
import SableSyntax.Parsing.Program
import SableSyntax.Syntax.Printing
import SableSyntax.Diagnostic
import SableSyntax.Traversal
import SableSyntax.Json.Value
import SableSyntax.Json.Writing
import SableSyntax.Json.Reading
import SableSyntax.Persistence.Number
import SableSyntax.Persistence.Token
import SableSyntax.Persistence.Syntax
import SableSyntax.Persistence.Diagnostic
import SableSyntax.Persistence.Storage
import SableSyntax.Proofs.Lexing.TokenStream
import SableSyntax.Proofs.Lexing.Gaps
import SableSyntax.Proofs.Lexing.Spelling
import SableSyntax.Proofs.Lexing.Splitting
import SableSyntax.Proofs.Lexing.Spreading
import SableSyntax.Proofs.Parsing.Ahead
import SableSyntax.Proofs.Grammar.Rules
import SableSyntax.Proofs.Grammar.Sequences
import SableSyntax.Proofs.Parsing.Runs
import SableSyntax.Proofs.Nesting.Levels
import SableSyntax.Proofs.Grammar.Viable
import SableSyntax.Proofs.Parsing.Reads
import SableSyntax.Proofs.Parsing.ExpressionSoundness
import SableSyntax.Proofs.Parsing.ProgramSoundness
import SableSyntax.Proofs.Parsing.Yields
import SableSyntax.Proofs.Parsing.ExpressionCompleteness
import SableSyntax.Proofs.Parsing.ProgramCompleteness
import SableSyntax.Proofs.Syntax.Places
import SableSyntax.Proofs.Grammar.Meaning
import SableSyntax.Proofs.Grammar.Limits
import SableSyntax.Proofs.Parsing.Acceptance
import SableSyntax.Proofs.Parsing.FirstError
import SableSyntax.Proofs.Nesting.Paths
import SableSyntax.Proofs.Nesting.Bound
import SableSyntax.Proofs.Nesting.Longest
import SableSyntax.Proofs.Nesting.Unbounded
import SableSyntax.Proofs.Nesting.Openings
import SableSyntax.Proofs.Number.Rounding
import SableSyntax.Proofs.Number.Texts
import SableSyntax.Proofs.Printing.Trees
import SableSyntax.Proofs.Printing.RoundTrip
import SableSyntax.Proofs.Lexing.Steps
import SableSyntax.Proofs.Parsing.Invariants
import SableSyntax.Proofs.Parsing.StatePlaces
import SableSyntax.Proofs.Grammar.Extents
import SableSyntax.Proofs.Parsing.Calls
import SableSyntax.Proofs.Parsing.ReportedPlaces
import SableSyntax.Proofs.Nesting.FirstBeyond
import SableSyntax.Proofs.Printing.Signs
import SableSyntax.Proofs.Lexing.Marks
import SableSyntax.Proofs.Grammar.WellFormed
import SableSyntax.Proofs.Printing.Tokens
import SableSyntax.Proofs.Printing.Domain
import SableSyntax.Proofs.Syntax.Nodes
import SableSyntax.Proofs.Grammar.Parts
import SableSyntax.Proofs.Lexing.Fragments
import SableSyntax.Proofs.Parsing.Fragments
import SableSyntax.Proofs.Parsing.Parallel
import SableSyntax.Proofs.Parsing.ParallelReaders
import SableSyntax.Proofs.Parsing.Layout
import SableSyntax.Proofs.Sessions.Session
import SableSyntax.Proofs.Sessions.Mirrors
import SableSyntax.Proofs.Sessions.Readers
import SableSyntax.Proofs.Sessions.Streams
import SableSyntax.Proofs.Sessions.Watched
import SableSyntax.Proofs.Sessions.Tracking
import SableSyntax.Proofs.Sessions.Activations
import SableSyntax.Proofs.Sessions.Termination
import SableSyntax.Proofs.Parsing.NodePlaces
import SableSyntax.Proofs.Parsing.LexicalFaults
import SableSyntax.Proofs.Syntax.Moves
import SableSyntax.Proofs.Grammar.Moves
import SableSyntax.Proofs.Lexing.Joins
import SableSyntax.Proofs.Parsing.Joins
import SableSyntax.Proofs.Grammar.Strata
import SableSyntax.Proofs.Parsing.Strata
import SableSyntax.Proofs.Json.Numerals
import SableSyntax.Proofs.Json.Strings
import SableSyntax.Proofs.Json.Values
import SableSyntax.Proofs.Persistence.Numbers
import SableSyntax.Proofs.Number.Nearest
import SableSyntax.Proofs.Parsing.Literals
import SableSyntax.Proofs.Lexing.Passing
import SableSyntax.Proofs.Text.Lines
import SableSyntax.Proofs.Parsing.Rendering
import SableSyntax.Proofs.Parsing.VisitOrder
import SableSyntax.Proofs.Text.Counters
import SableSyntax.Persistence.Library
import SableSyntax.Proofs.Persistence.Shapes
import SableSyntax.Proofs.Persistence.Restoring
import SableSyntax.Persistence.Plain
import SableSyntax.Proofs.Json.Prefixes
import SableSyntax.Proofs.Persistence.Plain
import SableSyntax.Proofs.Parsing.Log
