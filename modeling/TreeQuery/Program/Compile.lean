import TreeQuery.Program.Basic
import TreeQuery.Text.Quoted

/-!
From expressions to programs. An expression becomes a run of operations that leaves its value on
top of the stack.
-/
namespace TreeQuery

namespace Expr

/-- Whether a path starts with a step, or with nothing, and so at the node in focus. -/
def startsAtFocus : List Expr → Bool
  | [] => true
  | first :: _ => first.isStep

mutual

/-- The operations that push the value of an expression. -/
def compileOps : Expr → List Op
  | absolute parts => .root :: compileSteps parts []
  | relative parts =>
    if startsAtFocus parts then .context :: compileSteps parts [] else compileValuePath parts
  | step axis test predicates =>
    [.context, .steps [.mk axis (test.ready axis) (compilePrograms predicates)]]
  | filter primary predicates => compileOps primary ++ [.filter (compilePrograms predicates)]
  | binary .and left right => compileOps left ++ [.and (.mk (compileOps right))]
  | binary .or left right => compileOps left ++ [.or (.mk (compileOps right))]
  | binary op left right => compileOps left ++ compileOps right ++ [.binary op]
  | union left right => compileOps left ++ compileOps right ++ [.union]
  | negate operand => compileOps operand ++ [.negate]
  | string text => [.string text]
  | number value => [.number value]
  | call name args =>
    match Function.ofTitle? name with
    | some function => compileArgs args ++ [.call function args.length]
    | none => [.unsupported (.function name)]
  | reference name => [.reference name]

/-- The operations for a path whose first part is an expression for nodes. -/
def compileValuePath : List Expr → List Op
  | [] => []
  | first :: rest => compileOps first ++ compileSteps rest []

/-- The operation for the steps of a path behind those that are ready, the last one first. A part
that is no step makes the whole path fail. -/
def compileSteps : List Expr → List ReadyStep → List Op
  | [], [] => []
  | [], ready => [.steps ready.reverse]
  | step axis test predicates :: rest, ready =>
    compileSteps rest (.mk axis (test.ready axis) (compilePrograms predicates) :: ready)
  | _ :: _, _ => [.unsupported .partAsStep]

def compilePrograms : List Expr → List Program
  | [] => []
  | e :: es => .mk (compileOps e) :: compilePrograms es

/-- The operations that push the values of arguments, from left to right. -/
def compileArgs : List Expr → List Op
  | [] => []
  | e :: es => compileOps e ++ compileArgs es

end

def compile (e : Expr) : Program := .mk e.compileOps

end Expr

namespace CompiledQuery

def ofExpr (source : String) (e : Expr) : CompiledQuery := ⟨source, e.compile⟩

/-- A query as messages show it: its text and the number of its operations. -/
def shown (q : CompiledQuery) : String :=
  "CompiledQuery \x7b source: " ++ Text.quoted q.source ++ ", ops: " ++
    toString q.program.ops.length ++ " \x7d"

end CompiledQuery

end TreeQuery
