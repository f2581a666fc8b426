import TreeQuery.Eval.Selection
import TreeQuery.Function.Call
import TreeQuery.Program.Basic

/-!
Running programs. Each operation takes its operands from the top of the stack and puts one value
there; a value that is missing counts as the empty node-set.
-/
namespace TreeQuery

/-- Values, the last one pushed first. -/
abbrev Stack := List Value

namespace Stack

/-- The value on top, and the rest. -/
def pop : Stack → Value × Stack
  | [] => (default, [])
  | value :: rest => (value, rest)

/-- The last so many values in the order in which they were pushed, and the rest. -/
def popArgs (n : Nat) (stack : Stack) : List Value × Stack :=
  ((stack.take n).reverse, stack.drop n)

end Stack

section
variable (v : View) (options : QueryOptions)

mutual

/-- Runs operations from left to right. -/
def Program.runOps : List Op → Focus → Stack → Except QueryError Stack
  | [], _, stack => .ok stack
  | op :: ops, focus, stack => do
    let stack ← op.run focus stack
    Program.runOps ops focus stack

/-- One operation. -/
def Op.run : Op → Focus → Stack → Except QueryError Stack
  | .root, _, stack => .ok (.nodes [View.documentNode] :: stack)
  | .context, focus, stack => .ok (.nodes [focus.node] :: stack)
  | .steps steps, _, stack => do
    let (value, stack) := stack.pop
    .ok (.nodes (← ReadyStep.runAll steps (← value.toNodes)) :: stack)
  | .filter predicates, _, stack => do
    let (value, stack) := stack.pop
    let ids ← Selection.keepAll options.rounding (Program.conditions predicates) (← value.toNodes)
    .ok (.nodes ids :: stack)
  | .union, _, stack => do
    let (right, stack) := stack.pop
    let (left, stack) := stack.pop
    .ok ((← Selection.union left right) :: stack)
  | .number value, _, stack => .ok (.number value :: stack)
  | .string text, _, stack => .ok (.string text :: stack)
  | .reference name, _, stack => do .ok ((← options.value name) :: stack)
  | .negate, _, stack =>
    let (value, stack) := stack.pop
    .ok (value.negated v :: stack)
  | .binary op, _, stack =>
    let (right, stack) := stack.pop
    let (left, stack) := stack.pop
    .ok (op.apply v left right :: stack)
  | .and right, focus, stack => do
    let (left, stack) := stack.pop
    if left.toBoolean then .ok (.boolean (← right.run focus).toBoolean :: stack)
    else .ok (.boolean false :: stack)
  | .or right, focus, stack => do
    let (left, stack) := stack.pop
    if left.toBoolean then .ok (.boolean true :: stack)
    else .ok (.boolean (← right.run focus).toBoolean :: stack)
  | .call function n, focus, stack => do
    let (args, stack) := stack.popArgs n
    .ok ((← function.call v focus args) :: stack)
  | .unsupported feature, _, _ => .error (.unsupported feature)

/-- Steps one after the other, as long as there are nodes. -/
def ReadyStep.runAll : List ReadyStep → List NodeId → Except QueryError (List NodeId)
  | [], ids => .ok ids
  | .mk axis test predicates :: steps, ids =>
    if ids.isEmpty then .ok []
    else do
      ReadyStep.runAll steps
        (← Selection.step v options axis test (Program.conditions predicates) ids)

/-- The value that a whole program leaves on the stack. -/
def Program.run : Program → Focus → Except QueryError Value
  | .mk ops, focus => do
    let stack ← Program.runOps ops focus []
    .ok stack.pop.1

/-- What predicates say. -/
def Program.conditions : List Program → List Condition
  | [] => []
  | program :: programs => program.run :: Program.conditions programs

end

end

/-- Runs a query at a node by itself. -/
def CompiledQuery.call (q : CompiledQuery) (v : View) (options : QueryOptions) (node : NodeId) :
    Except QueryError Value :=
  q.program.run v options { node }

end TreeQuery
