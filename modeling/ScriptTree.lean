import ScriptTree.Ast.Statement
import ScriptTree.Bisection
import ScriptTree.Error
import ScriptTree.Highlight.Project
import ScriptTree.Kind
import ScriptTree.Language
import ScriptTree.Literal
import ScriptTree.Proofs.Ast.Reading
import ScriptTree.Proofs.Document.Errors
import ScriptTree.Proofs.Document.History
import ScriptTree.Proofs.Document.Partition
import ScriptTree.Proofs.Document.Reuse
import ScriptTree.Proofs.Document.Tokens
import ScriptTree.Proofs.Document.Width
import ScriptTree.Proofs.Edit.Alignment
import ScriptTree.Proofs.Edit.Batch
import ScriptTree.Proofs.Grammar.Basic
import ScriptTree.Proofs.Grammar.Binding
import ScriptTree.Proofs.Grammar.Completeness
import ScriptTree.Proofs.Grammar.Script
import ScriptTree.Proofs.Grammar.Soundness
import ScriptTree.Proofs.Grammar.Spelling
import ScriptTree.Proofs.Grammar.Words
import ScriptTree.Proofs.Highlight.Rule
import ScriptTree.Proofs.Lexer.Line
import ScriptTree.Proofs.Lexer.Literal
import ScriptTree.Proofs.Lexer.Locality
import ScriptTree.Proofs.Lexer.Number
import ScriptTree.Proofs.Lexer.Quoted
import ScriptTree.Proofs.Lexer.Reach
import ScriptTree.Proofs.Lexer.Scan
import ScriptTree.Proofs.Lexer.Spelling
import ScriptTree.Proofs.Lexer.Tiling
import ScriptTree.Proofs.Lexer.Timeframe
import ScriptTree.Proofs.Literal.Decode
import ScriptTree.Proofs.Literal.Quoted
import ScriptTree.Proofs.Machine.Basic
import ScriptTree.Proofs.Machine.Calls
import ScriptTree.Proofs.Machine.Nesting
import ScriptTree.Proofs.Machine.Statement
import ScriptTree.Proofs.Machine.Steps
import ScriptTree.Proofs.Number.Decimal
import ScriptTree.Proofs.Statement.Blank
import ScriptTree.Proofs.Statement.Boundary
import ScriptTree.Proofs.Statement.Cursor
import ScriptTree.Proofs.Statement.Depth
import ScriptTree.Proofs.Statement.Edge
import ScriptTree.Proofs.Statement.Limit
import ScriptTree.Proofs.Statement.Locality
import ScriptTree.Proofs.Statement.Lookahead
import ScriptTree.Proofs.Statement.Nesting
import ScriptTree.Proofs.Statement.Parses
import ScriptTree.Proofs.Statement.Partition
import ScriptTree.Proofs.Statement.Runs
import ScriptTree.Proofs.Statement.Shape
import ScriptTree.Proofs.Statement.Simulation
import ScriptTree.Proofs.Text.Bytes
import ScriptTree.Proofs.Text.Quoted
import ScriptTree.Proofs.Timeframe.Reader
import ScriptTree.Proofs.Timeframe.Spelling
import ScriptTree.Proofs.Token.Chunk
import ScriptTree.Proofs.Token.Draft
import ScriptTree.Proofs.Token.Stored
import ScriptTree.Proofs.Token.Stream
import ScriptTree.Proofs.Tree.Address
import ScriptTree.Proofs.Tree.Difference
import ScriptTree.Proofs.Tree.Dump
import ScriptTree.Proofs.Tree.Leaf
import ScriptTree.Proofs.Tree.Search
import ScriptTree.Proofs.Tree.Site
import ScriptTree.Proofs.Tree.Window
import ScriptTree.Proofs.Tree.Yield
import ScriptTree.Proofs.Trivia.Attach
import ScriptTree.Proofs.Trivia.Heading
import ScriptTree.Proofs.Trivia.Map
import ScriptTree.Proofs.Trivia.Orphan
import ScriptTree.Proofs.Update.Affected
import ScriptTree.Proofs.Update.Front
import ScriptTree.Proofs.Update.Relex
import ScriptTree.Proofs.Update.Reparse
import ScriptTree.Proofs.Update.Reuse
import ScriptTree.Proofs.Update.Runs
import ScriptTree.Session
import ScriptTree.Settings.Schema
import ScriptTree.Tree.Builder
import ScriptTree.Trivia.Attach
import ScriptTree.Proofs.Document.Position
import ScriptTree.Proofs.Highlight.Name
