import TreeQuery.Expr.Axis
import TreeQuery.Expr.NodeTest
import TreeQuery.Number.Basic

/-!
Expressions, and edits of their direct parts. Every expression has an ordered list of children;
`withChildren` puts other ones in their place and keeps everything else.
-/
namespace TreeQuery

/-- The operators between two values. -/
inductive BinaryOp where
  | or | and | eq | ne | lt | le | gt | ge | add | sub | mul | div | mod
deriving DecidableEq, Repr

namespace BinaryOp

/-- The operator as it is written. -/
def sign : BinaryOp → String
  | or => "or"
  | and => "and"
  | eq => "="
  | ne => "!="
  | lt => "<"
  | le => "<="
  | gt => ">"
  | ge => ">="
  | add => "+"
  | sub => "-"
  | mul => "*"
  | div => "div"
  | mod => "mod"

end BinaryOp

inductive Expr where
  /-- Steps from the document node. -/
  | absolute (parts : List Expr)
  /-- A first part taken at the context node, and steps from its nodes. -/
  | relative (parts : List Expr)
  | step (axis : Axis) (test : NodeTest) (predicates : List Expr)
  /-- A node-set and predicates that count in document order. -/
  | filter (primary : Expr) (predicates : List Expr)
  | binary (op : BinaryOp) (left right : Expr)
  | union (left right : Expr)
  | negate (operand : Expr)
  | string (text : String)
  | number (value : Number)
  | call (function : String) (args : List Expr)
  | reference (name : String)

namespace Expr

instance : Inhabited Expr := ⟨.relative []⟩

def isStep : Expr → Bool
  | step .. => true
  | _ => false

/-- The direct parts, in order. -/
def children : Expr → List Expr
  | absolute parts | relative parts => parts
  | step _ _ predicates => predicates
  | filter primary predicates => primary :: predicates
  | binary _ left right | union left right => [left, right]
  | negate operand => [operand]
  | call _ args => args
  | string _ | number _ | reference _ => []

/-- The same expression with other direct parts. Where a fixed number of operands is needed, those
that are missing from the list stay as they are, and those beyond are left out. -/
def withChildren (e : Expr) (parts : List Expr) : Expr :=
  match e with
  | absolute _ => absolute parts
  | relative _ => relative parts
  | step axis test _ => step axis test parts
  | filter primary _ => filter (parts.headD primary) parts.tail
  | binary op left right => binary op (parts.headD left) (parts.tail.headD right)
  | union left right => union (parts.headD left) (parts.tail.headD right)
  | negate operand => negate (parts.headD operand)
  | call function _ => call function parts
  | string _ | number _ | reference _ => e

/-- The same expression with one more part at the end. -/
def pushChild (e part : Expr) : Expr := e.withChildren (e.children ++ [part])

end Expr

end TreeQuery
