import TreeQuery.Eval.Focus
import TreeQuery.Expr.Basic
import TreeQuery.Options
import TreeQuery.Step.Axes
import TreeQuery.Step.Match
import TreeQuery.Value.Coercion

/-!
Selecting nodes and combining values: what both ways to run a query, over expressions and over
programs, have in common. A predicate is given as what it says at each focus.
-/
namespace TreeQuery

/-- What a predicate says at a focus. -/
abbrev Condition := Focus → Except QueryError Value

namespace Selection

variable (v : View) (options : QueryOptions)

/-- Whether the value of a predicate keeps a node: a number keeps the node at its position, any
other value is taken for a truth value. -/
def keeps (rounding : Rounding) (position : Nat) : Value → Bool
  | .number n => rounding.selects position n
  | value => value.toBoolean

/-- Filters nodes from a position on, out of so many. -/
def keepFrom (rounding : Rounding) (condition : Condition) (size : Nat) :
    Nat → List NodeId → Except QueryError (List NodeId)
  | _, [] => .ok []
  | position, id :: ids => do
    let value ← condition ⟨id, position, size⟩
    let rest ← keepFrom rounding condition size (position + 1) ids
    .ok (if keeps rounding position value then id :: rest else rest)

/-- The nodes that one predicate keeps; each is in focus once, in order. -/
def keep (rounding : Rounding) (condition : Condition) (ids : List NodeId) :
    Except QueryError (List NodeId) :=
  keepFrom rounding condition ids.length 1 ids

/-- The nodes that all predicates keep, one predicate after the other. No predicate is asked when
there is no node left. -/
def keepAll (rounding : Rounding) : List Condition → List NodeId → Except QueryError (List NodeId)
  | [], ids => .ok ids
  | condition :: conditions, ids =>
    if ids.isEmpty then .ok []
    else do keepAll rounding conditions (← keep rounding condition ids)

/-- The nodes on an axis that pass a test. -/
def candidates (axis : Axis) (test : ReadyTest) (id : NodeId) : List NodeId :=
  (v.along axis id).filter (test.fits v options.aliases)

/-- What a step selects from each of some nodes, one after the other. -/
def stepFromEach (axis : Axis) (test : ReadyTest) (conditions : List Condition) :
    List NodeId → Except QueryError (List NodeId)
  | [] => .ok []
  | id :: ids => do
    let here ← keepAll options.rounding conditions (candidates v options axis test id)
    let rest ← stepFromEach axis test conditions ids
    .ok (here ++ rest)

/-- One location step from a set of nodes. Positions count for each node by itself; what is
selected from all of them comes in document order. -/
def step (axis : Axis) (test : ReadyTest) (conditions : List Condition) (ids : List NodeId) :
    Except QueryError (List NodeId) := do
  .ok (documentOrder (← stepFromEach v options axis test conditions ids))

/-- The union of two node-sets. -/
def union (left right : Value) : Except QueryError Value := do
  let left ← left.toNodes
  let right ← right.toNodes
  .ok (.nodes (documentOrder (left ++ right)))

end Selection

namespace BinaryOp

/-- The value of an operator for two values. -/
def apply (v : View) (op : BinaryOp) (left right : Value) : Value :=
  let a := left.toNumber v
  let b := right.toNumber v
  match op with
  | or => .boolean (left.toBoolean || right.toBoolean)
  | and => .boolean (left.toBoolean && right.toBoolean)
  | eq => .boolean (Value.equal v left right)
  | ne => .boolean (!Value.equal v left right)
  | lt => .boolean (a.lt b)
  | le => .boolean (a.le b)
  | gt => .boolean (b.lt a)
  | ge => .boolean (b.le a)
  | add => .number (a + b)
  | sub => .number (a - b)
  | mul => .number (a * b)
  | div => .number (a / b)
  | mod => .number (a % b)

end BinaryOp

/-- The value of a minus sign in front of a value. -/
def Value.negated (v : View) (value : Value) : Value := .number (-value.toNumber v)

end TreeQuery
