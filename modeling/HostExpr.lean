-- SUMMARY: Typed expressions over the objects, methods and functions of a host.
import HostExpr.Text.Invisible
import HostExpr.Text.Blank
import HostExpr.Text.Quoted
import HostExpr.Floating.Exact
import HostExpr.Floating.Integral
import HostExpr.Decimal.Integer
import HostExpr.Decimal.Real
import HostExpr.Decimal.Shortest
import HostExpr.Number.Kind
import HostExpr.Number
import HostExpr.Ty
import HostExpr.Ty.Promotion
import HostExpr.EvalError
import HostExpr.Value
import HostExpr.Conversion
import HostExpr.Names
import HostExpr.Record
import HostExpr.Host.Action
import HostExpr.Host.Member
import HostExpr.Host.Method
import HostExpr.Host.Function
import HostExpr.Catalog
import HostExpr.Prelude
import HostExpr.Session
import HostExpr.Token
import HostExpr.Token.Lexer
import HostExpr.CompileError
import HostExpr.Expr
import HostExpr.Expr.Rendering
import HostExpr.Expr.Operation
import HostExpr.Expr.Answer
import HostExpr.Expr.Evaluation
import HostExpr.Overload
import HostExpr.Compile.Parsed
import HostExpr.Compile.Precedence
import HostExpr.Compile.Resolution
import HostExpr.Compile.Grammar
import HostExpr.Compiled
import HostExpr.Session.Once
import HostExpr.Session.Shared
import HostExpr.CommandLine
import HostExpr.Main
import HostExpr.Proofs.Expr.Nodes
import HostExpr.Proofs.Compile.Yields
import HostExpr.Proofs.Compile.Operators
import HostExpr.Proofs.Compile.Readers
import HostExpr.Proofs.Compile.Derivation
import HostExpr.Proofs.Compile.Soundness
import HostExpr.Proofs.Compile.Unambiguous
import HostExpr.Proofs.Compile.Completeness
import HostExpr.Proofs.Compile.Trees
import HostExpr.Proofs.Expr.Ends
import HostExpr.Proofs.Expr.Formed
import HostExpr.Proofs.Compile.WellFormed
import HostExpr.Proofs.Expr.Invocation
import HostExpr.Proofs.Compile.Invocation
import HostExpr.Proofs.Expr.TypeSoundness
import HostExpr.Proofs.Expr.Modes
import HostExpr.Proofs.Expr.Roles
import HostExpr.Proofs.Expr.Watch
import HostExpr.Proofs.Expr.CallOrder
import HostExpr.Proofs.Expr.HostCalls
import HostExpr.Proofs.Compile.TypeSoundness
import HostExpr.Proofs.Compile.NumericArguments
import HostExpr.Proofs.Compile.Stops
import HostExpr.Proofs.Compile.Casts
import HostExpr.Proofs.Decimal.Numeral
import HostExpr.Proofs.Token.Splits
import HostExpr.Proofs.Expr.Written
import HostExpr.Proofs.Names
import HostExpr.Proofs.Enumeration
import HostExpr.Proofs.Compile.Reading
import HostExpr.Proofs.Compile.RoundTrip
import HostExpr.Proofs.Compile.Locality
import HostExpr.Proofs.CommandLine.Options
import HostExpr.Proofs.CommandLine.ClosedWorld
import HostExpr.Proofs.Token.Patterns
import HostExpr.Proofs.Token.LongestMatch
import HostExpr.Proofs.Token.Tiling
import HostExpr.Proofs.Compile.Respacing
import HostExpr.Proofs.Conversion.Fits
import HostExpr.Proofs.Conversion.Idempotent
import HostExpr.Proofs.Compile.Faults
import HostExpr.Proofs.Floating.Bits
import HostExpr.Proofs.Floating.Content
import HostExpr.Proofs.Floating.Rounding
import HostExpr.Proofs.Floating.Integers
import HostExpr.Proofs.Floating.Singles
import HostExpr.Proofs.Decimal.Integer
import HostExpr.Proofs.Conversion.Integers
import HostExpr.Proofs.Conversion.Enums
import HostExpr.Proofs.Catalog
import HostExpr.Proofs.Overload.Score
import HostExpr.Proofs.Overload.Leader
import HostExpr.Proofs.Overload.Generic
import HostExpr.Proofs.Overload.Bounds
import HostExpr.Proofs.Overload.Priority
import HostExpr.Proofs.Decimal.Shortest
import HostExpr.Proofs.Text.Quoted
import HostExpr.Proofs.Text.Delimited
import HostExpr.Proofs.Expr.Suffixes
import HostExpr.Proofs.Compile.Printed
import HostExpr.Proofs.Compile.Endings
import HostExpr.Proofs.Compile.SameText
import HostExpr.Proofs.Expr.Bitwise
import HostExpr.Proofs.Number.Casts
import HostExpr.Proofs.Ty.Promotion
import HostExpr.Proofs.Ty.Substitution
import HostExpr.Proofs.Compile.GenericCalls
import HostExpr.Proofs.Compile.Calls
import HostExpr.Proofs.Compile.Progress
import HostExpr.Proofs.Compile.Cursor
import HostExpr.Proofs.Token.StringLiterals
