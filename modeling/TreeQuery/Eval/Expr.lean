import TreeQuery.Eval.Selection
import TreeQuery.Function.Call

/-!
Evaluation of expressions, by recursion on them.
-/
namespace TreeQuery.Expr

variable (v : View) (options : QueryOptions)

mutual

/-- The value of an expression at a focus. -/
def eval : Expr → Focus → Except QueryError Value
  | absolute parts, _ => do .ok (.nodes (← evalSteps parts [View.documentNode]))
  | relative parts, focus => do .ok (.nodes (← evalPath parts focus))
  | step axis test predicates, focus => do
    .ok (.nodes (← Selection.step v options axis (test.ready axis) (conditions predicates)
      [focus.node]))
  | filter primary predicates, focus => do
    let ids ← (← eval primary focus).toNodes
    .ok (.nodes (← Selection.keepAll options.rounding (conditions predicates) ids))
  | binary .and left right, focus => do
    if (← eval left focus).toBoolean then .ok (.boolean (← eval right focus).toBoolean)
    else .ok (.boolean false)
  | binary .or left right, focus => do
    if (← eval left focus).toBoolean then .ok (.boolean true)
    else .ok (.boolean (← eval right focus).toBoolean)
  | binary op left right, focus => do
    let left ← eval left focus
    let right ← eval right focus
    .ok (op.apply v left right)
  | union left right, focus => do
    let left ← eval left focus
    let right ← eval right focus
    Selection.union left right
  | negate operand, focus => do .ok ((← eval operand focus).negated v)
  | string text, _ => .ok (.string text)
  | number value, _ => .ok (.number value)
  | call name args, focus =>
    match Function.ofTitle? name with
    | none => .error (.unsupported (.function name))
    | some function => do function.call v focus (← evalArgs args focus)
  | reference name, _ => options.value name

/-- The nodes of a path from the focus: a first part that is a step or any expression for nodes,
and steps behind it. Without parts it is the focus. -/
def evalPath : List Expr → Focus → Except QueryError (List NodeId)
  | [], focus => .ok [focus.node]
  | first :: rest, focus => do evalSteps rest (← (← eval first focus).toNodes)

/-- The nodes that steps lead to. No step is taken from no nodes, and nothing but a step can be
taken. -/
def evalSteps : List Expr → List NodeId → Except QueryError (List NodeId)
  | [], ids => .ok ids
  | step axis test predicates :: rest, ids =>
    if ids.isEmpty then .ok []
    else do
      evalSteps rest
        (← Selection.step v options axis (test.ready axis) (conditions predicates) ids)
  | _ :: _, ids => if ids.isEmpty then .ok [] else .error (.unsupported .partAsStep)

/-- What predicates say. -/
def conditions : List Expr → List Condition
  | [] => []
  | predicate :: predicates => eval predicate :: conditions predicates

/-- The values of arguments, from left to right. -/
def evalArgs : List Expr → Focus → Except QueryError (List Value)
  | [], _ => .ok []
  | arg :: args, focus => do
    let value ← eval arg focus
    let values ← evalArgs args focus
    .ok (value :: values)

end

/-- The value of an expression at a node by itself. -/
def evaluate (e : Expr) (node : NodeId) : Except QueryError Value := e.eval v options { node }

end TreeQuery.Expr
