import LslFront.Binary64
import LslFront.Block
import LslFront.Block.Effect
import LslFront.Block.Header
import LslFront.Block.Reader
import LslFront.Builtin.Constant
import LslFront.Builtin.Event
import LslFront.Builtin.Function
import LslFront.Builtin.Word
import LslFront.Command
import LslFront.Constant
import LslFront.Constant.Convert
import LslFront.Constant.Fold
import LslFront.Constant.Printing
import LslFront.Constant.Reading
import LslFront.Decimal
import LslFront.Decimal.Fixed
import LslFront.Decimal.Shortest
import LslFront.Dialect
import LslFront.Dialect.Directives
import LslFront.Expr
import LslFront.Expr.Casts
import LslFront.Expr.Parser
import LslFront.Fault
import LslFront.Files
import LslFront.Json
import LslFront.Json.Reader
import LslFront.Line
import LslFront.Line.Lexer
import LslFront.Main
import LslFront.Operator
import LslFront.Proofs.Binary64.Integer
import LslFront.Proofs.Binary64.Value
import LslFront.Proofs.Block.Carrying
import LslFront.Proofs.Block.Else
import LslFront.Proofs.Block.Extent
import LslFront.Proofs.Block.Header
import LslFront.Proofs.Block.Likeness
import LslFront.Proofs.Block.Lines
import LslFront.Proofs.Block.Locals
import LslFront.Proofs.Block.Matching
import LslFront.Proofs.Block.Moves
import LslFront.Proofs.Block.Nesting
import LslFront.Proofs.Block.Outline
import LslFront.Proofs.Block.Places
import LslFront.Proofs.Block.Rebuilding
import LslFront.Proofs.Block.Scopes
import LslFront.Proofs.Block.Shape
import LslFront.Proofs.Command.Checking
import LslFront.Proofs.Constant.Decimals
import LslFront.Proofs.Constant.Folding
import LslFront.Proofs.Constant.Integers
import LslFront.Proofs.Constant.Prefixes
import LslFront.Proofs.Constant.Quoting
import LslFront.Proofs.Constant.Truncation
import LslFront.Proofs.Dialect.Extensions
import LslFront.Proofs.Dialect.Inclusion
import LslFront.Proofs.Dialect.Leading
import LslFront.Proofs.Dialect.Position
import LslFront.Proofs.Expr.Brackets
import LslFront.Proofs.Expr.Casts
import LslFront.Proofs.Expr.Completeness
import LslFront.Proofs.Expr.Grammar
import LslFront.Proofs.Expr.Groups
import LslFront.Proofs.Expr.Recombining
import LslFront.Proofs.Expr.Soundness
import LslFront.Proofs.Json.RoundTrip
import LslFront.Proofs.Line.Breaks
import LslFront.Proofs.Line.Gathering
import LslFront.Proofs.Line.Grouping
import LslFront.Proofs.Line.Joining
import LslFront.Proofs.Line.Numbers
import LslFront.Proofs.Line.Quoted
import LslFront.Proofs.Line.Respacing
import LslFront.Proofs.Line.Settled
import LslFront.Proofs.Line.Sifting
import LslFront.Proofs.Line.Single
import LslFront.Proofs.Line.Tokens
import LslFront.Proofs.Line.Writing
import LslFront.Proofs.Resolved.Decimals
import LslFront.Proofs.Resolved.Evaluation
import LslFront.Proofs.Resolved.Failure
import LslFront.Proofs.Resolved.Literals
import LslFront.Proofs.Resolved.Normal
import LslFront.Proofs.Resolved.Parentheses
import LslFront.Proofs.Resolved.Tokens
import LslFront.Proofs.Resolved.Variables
import LslFront.Proofs.Resolved.Widening
import LslFront.Proofs.Script.Alone
import LslFront.Proofs.Script.Bodies
import LslFront.Proofs.Script.Carrying
import LslFront.Proofs.Script.Constants
import LslFront.Proofs.Script.Ending
import LslFront.Proofs.Script.Exchange
import LslFront.Proofs.Script.Failure
import LslFront.Proofs.Script.Faults
import LslFront.Proofs.Script.Globals
import LslFront.Proofs.Script.Likeness
import LslFront.Proofs.Script.Literals
import LslFront.Proofs.Script.Moves
import LslFront.Proofs.Script.Names
import LslFront.Proofs.Script.Narrowing
import LslFront.Proofs.Script.StateNames
import LslFront.Proofs.Script.States
import LslFront.Proofs.Script.Symbols
import LslFront.Proofs.Script.Variables
import LslFront.Proofs.Settings.Saving
import LslFront.Proofs.Source.Calls
import LslFront.Proofs.Source.Expansion
import LslFront.Proofs.Source.Numbers
import LslFront.Proofs.Source.Reach
import LslFront.Proofs.Source.Rounds
import LslFront.Proofs.Source.Runs
import LslFront.Proofs.Space.Turning
import LslFront.Proofs.Success
import LslFront.Proofs.Token.Runs
import LslFront.Proofs.Token.Split
import LslFront.Proofs.Token.Text
import LslFront.Resolved
import LslFront.Resolved.Resolve
import LslFront.Script
import LslFront.Script.Header
import LslFront.Script.Json
import LslFront.Script.Reader
import LslFront.Script.Symbols
import LslFront.Settings
import LslFront.Source
import LslFront.Source.Machine
import LslFront.Source.Rank
import LslFront.Space
import LslFront.Table
import LslFront.Text
import LslFront.Token
import LslFront.Token.Runs
import LslFront.Token.Split
import LslFront.Ty
