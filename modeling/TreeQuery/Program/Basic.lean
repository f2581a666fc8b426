import TreeQuery.Expr.Basic
import TreeQuery.Error
import TreeQuery.Step.Match

/-!
Programs for a stack of values. Names of functions and kinds of nodes are settled in them, so one
program serves any number of documents.
-/
namespace TreeQuery

mutual

inductive Op where
  /-- Push the document node. -/
  | root
  /-- Push the node in focus. -/
  | context
  /-- Pop a node-set and push what steps select from it. -/
  | steps (steps : List ReadyStep)
  /-- Pop a node-set and push the nodes that predicates keep. -/
  | filter (predicates : List Program)
  /-- Pop two node-sets and push their union. -/
  | union
  | number (value : Number)
  | string (text : String)
  /-- Push the value bound to a name. -/
  | reference (name : String)
  | negate
  | binary (op : BinaryOp)
  /-- Pop the left operand; the right one runs only if it is true. -/
  | and (right : Program)
  /-- Pop the left operand; the right one runs only if it is false. -/
  | or (right : Program)
  /-- Pop so many arguments and push the value of a function. -/
  | call (function : Function) (args : Nat)
  /-- Fail. -/
  | unsupported (feature : Feature)

/-- A location step with its test made ready. -/
inductive ReadyStep where
  | mk (axis : Axis) (test : ReadyTest) (predicates : List Program)

inductive Program where
  | mk (ops : List Op)

end

namespace Program

def ops : Program → List Op
  | mk ops => ops

end Program

/-- A compiled query and the text it comes from. -/
structure CompiledQuery where
  source : String
  program : Program

end TreeQuery
