import TreeQuery.Tree.Node

/-!
Where an expression is evaluated: a node, its position among the nodes under test, and how many
there are.
-/
namespace TreeQuery

structure Focus where
  node : NodeId
  position : Nat := 1
  size : Nat := 1
deriving DecidableEq, Repr

end TreeQuery
