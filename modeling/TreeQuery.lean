import TreeQuery.Engine.Batch
import TreeQuery.Expr.Printer
import TreeQuery.Tree.Builder
import TreeQuery.Tree.StringPool
import TreeQuery.Proofs.Outcome
import TreeQuery.Proofs.Expr.Everywhere
import TreeQuery.Proofs.Expr.Parsed
import TreeQuery.Proofs.Selector.Translated
import TreeQuery.Proofs.Tree.Attached
import TreeQuery.Proofs.Tree.Building
import TreeQuery.Proofs.Tree.Traversal
import TreeQuery.Proofs.Step.Axes
import TreeQuery.Proofs.Eval.Order
import TreeQuery.Proofs.Program.Agreement
import TreeQuery.Proofs.Program.Order
import TreeQuery.Proofs.Tree.Scope
import TreeQuery.Proofs.Tree.Naming
import TreeQuery.Proofs.Eval.Steady
import TreeQuery.Proofs.Selector.Named
import TreeQuery.Proofs.Number.Nearest
import TreeQuery.Proofs.Selector.Matching
import TreeQuery.Proofs.Expr.Grammar
import TreeQuery.Proofs.Expr.Lexed
import TreeQuery.Proofs.Expr.Sound
import TreeQuery.Proofs.Expr.Complete
import TreeQuery.Proofs.Number.Written
import TreeQuery.Proofs.Expr.Proper
import TreeQuery.Proofs.Expr.Flat
import TreeQuery.Proofs.Expr.Lexing
import TreeQuery.Proofs.Expr.Legible
import TreeQuery.Proofs.Expr.Rendered
import TreeQuery.Proofs.Eval.Bindings
import TreeQuery.Proofs.Engine.Cached
import TreeQuery.Proofs.Eval.Kinds
import TreeQuery.Proofs.Tree.Forest
import TreeQuery.Proofs.Tree.Reading
import TreeQuery.Proofs.Engine.Schedules
import TreeQuery.Proofs.Expr.Paired
import TreeQuery.Proofs.Eval.Settings
import TreeQuery.Proofs.Eval.Prefixes
import TreeQuery.Proofs.Tree.Depth
import TreeQuery.Proofs.Number.Whole
import TreeQuery.Proofs.Selector.Positions
import TreeQuery.Proofs.Text.Bytes
import TreeQuery.Proofs.Text.Pieces
import TreeQuery.Proofs.Function.Text
import TreeQuery.Proofs.Selector.Attributes
import TreeQuery.Proofs.Selector.Types
import TreeQuery.Proofs.Eval.Starts
import TreeQuery.Proofs.Eval.Pointwise
import TreeQuery.Proofs.Eval.Descents
import TreeQuery.Proofs.Expr.Unsigned
import TreeQuery.Proofs.Selector.Lexed
import TreeQuery.Proofs.Expr.Clear
import TreeQuery.Proofs.Selector.Rendered
import TreeQuery.Proofs.Eval.Places
import TreeQuery.Proofs.Tree.StringValue
import TreeQuery.Proofs.Cache.Moments
import TreeQuery.Proofs.Engine.Failures
import TreeQuery.Proofs.Cache.Recency
import TreeQuery.Proofs.Engine.Capacity
import TreeQuery.Proofs.Tree.Nesting
import TreeQuery.Proofs.Engine.Held
import TreeQuery.Proofs.Engine.Instances
import TreeQuery.Proofs.Tree.Reserved
import TreeQuery.Proofs.Tree.Interning
import TreeQuery.Proofs.Text.Stops
import TreeQuery.Proofs.Selector.Series
import TreeQuery.Proofs.Selector.Spelled
import TreeQuery.Proofs.Selector.Lexing
import TreeQuery.Proofs.Selector.Parts
import TreeQuery.Proofs.Selector.Parsed
import TreeQuery.Proofs.Expr.Lexemes
import TreeQuery.Proofs.Expr.Ranges
import TreeQuery.Proofs.Expr.Moved
import TreeQuery.Proofs.Expr.Respaced
import TreeQuery.Proofs.Expr.Numerals
import TreeQuery.Proofs.Metered
import TreeQuery.Proofs.Expr.Reader
import TreeQuery.Proofs.Expr.Charged
import TreeQuery.Proofs.Selector.Cursor
import TreeQuery.Proofs.Selector.Charged
import TreeQuery.Proofs.Halting
import TreeQuery.Proofs.Function.Search
import TreeQuery.Proofs.Function.Identified
import TreeQuery.Proofs.Value.Unified
import TreeQuery.Proofs.Program.Balance
import TreeQuery.Proofs.Expr.Edits
