import ExprShell.Config
import ExprShell.Config.Decode
import ExprShell.Eval
import ExprShell.Eval.Error
import ExprShell.Eval.Operators
import ExprShell.Eval.Run
import ExprShell.Expr
import ExprShell.Expr.Dump
import ExprShell.Expr.Render
import ExprShell.Flags
import ExprShell.Folder
import ExprShell.Launch
import ExprShell.Log
import ExprShell.Main
import ExprShell.Number.Binary
import ExprShell.Number.Decimal
import ExprShell.Number.Integer
import ExprShell.Number.Layout
import ExprShell.Number.Numeral
import ExprShell.Number.Shortest
import ExprShell.Sentence
import ExprShell.Sentence.Parse
import ExprShell.Proofs.Eval.Lockstep
import ExprShell.Proofs.Eval.Writes
import ExprShell.Proofs.Session.Course
import ExprShell.Proofs.Store.Link
import ExprShell.Session
import ExprShell.Shell
import ExprShell.Shell.History
import ExprShell.Shell.Loop
import ExprShell.Store
import ExprShell.Text.Base64
import ExprShell.Text.Blank
import ExprShell.Text.Case
import ExprShell.Text.Hidden
import ExprShell.Text.Intervals
import ExprShell.Text.Letter
import ExprShell.Text.Lines
import ExprShell.Text.Path
import ExprShell.Text.Printable
import ExprShell.Text.Quoted
import ExprShell.Text.Utf8
import ExprShell.Token
import ExprShell.Token.Piece
import ExprShell.Token.Scan
import ExprShell.Value
import ExprShell.Yaml.Cursor
import ExprShell.Yaml.Meaning
import ExprShell.Yaml.Node
import ExprShell.Yaml.Scalar
import ExprShell.Yaml.Tag
import ExprShell.Yaml.Timestamp
import ExprShell.Yaml.Token
import ExprShell.Proofs.Sentence.Grammar
import ExprShell.Proofs.Sentence.Sound
import ExprShell.Proofs.Sentence.Tame
import ExprShell.Proofs.Sentence.Complete
import ExprShell.Proofs.Expr.Erase
import ExprShell.Proofs.Token.Spelling
import ExprShell.Proofs.Expr.Words
import ExprShell.Proofs.Sentence.Takes
import ExprShell.Proofs.Sentence.Reread
import ExprShell.Proofs.Sentence.Alike
import ExprShell.Proofs.Expr.RoundTrip
import ExprShell.Proofs.Text.Decoded
import ExprShell.Proofs.Token.Places
import ExprShell.Proofs.Eval.Script
import ExprShell.Proofs.Eval.Budget
import ExprShell.Proofs.Eval.Operators
import ExprShell.Proofs.Eval.Depth
import ExprShell.Proofs.Eval.Compare
import ExprShell.Proofs.Expr.Read
import ExprShell.Proofs.Store.Twin
import ExprShell.Proofs.Eval.Meaning
import ExprShell.Proofs.Expr.Parts
import ExprShell.Proofs.Store.Sealed
import ExprShell.Proofs.Eval.Scoping
import ExprShell.Proofs.Session.Scoping
import ExprShell.Proofs.Eval.Proper
import ExprShell.Proofs.Store.Names
import ExprShell.Proofs.Expr.Built
import ExprShell.Proofs.Eval.Ending
import ExprShell.Proofs.Session.Proper
import ExprShell.Proofs.Expr.Assigned
import ExprShell.Proofs.Session.Ending
import ExprShell.Proofs.Eval.Callers
import ExprShell.Proofs.Session.Globals
import ExprShell.Proofs.Number.Overflow
import ExprShell.Proofs.Eval.Arithmetic
import ExprShell.Proofs.Sentence.Layout
import ExprShell.Proofs.Shell.Driver
import ExprShell.Proofs.Sentence.Stuck
import ExprShell.Proofs.Sentence.Earliest
import ExprShell.Proofs.Token.Longest
import ExprShell.Proofs.Token.Blanked
import ExprShell.Proofs.Eval.Counting
import ExprShell.Proofs.Session.Integers
import ExprShell.Proofs.Expr.Nodes
import ExprShell.Proofs.Sentence.Gated
import ExprShell.Proofs.Eval.Counter
import ExprShell.Proofs.Eval.Invariant
import ExprShell.Proofs.Session.Doubles
import ExprShell.Proofs.Store.Chain
import ExprShell.Proofs.Expr.Nesting
import ExprShell.Proofs.Eval.Chains
import ExprShell.Proofs.Session.Chains
import ExprShell.Proofs.Sentence.Walk
import ExprShell.Proofs.Sentence.Blocks
import ExprShell.Proofs.Sentence.Follows
import ExprShell.Proofs.Sentence.Levels
import ExprShell.Proofs.Sentence.Progress
import ExprShell.Proofs.Sentence.Origins
import ExprShell.Proofs.Expr.Equality
import ExprShell.Proofs.Token.Cursor
