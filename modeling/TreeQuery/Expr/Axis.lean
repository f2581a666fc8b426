/-!
The thirteen axes along which a location step leads, with their names. Reverse axes count from the
context node outward, against document order.
-/
namespace TreeQuery

inductive Axis where
  | child | descendant | descendantOrSelf | parent | ancestor | ancestorOrSelf
  | followingSibling | precedingSibling | following | preceding | self | attributes | namespaces
deriving DecidableEq, Repr

namespace Axis

def all : List Axis :=
  [child, descendant, descendantOrSelf, parent, ancestor, ancestorOrSelf, followingSibling,
    precedingSibling, following, preceding, self, attributes, namespaces]

def name : Axis → String
  | child => "child"
  | descendant => "descendant"
  | descendantOrSelf => "descendant-or-self"
  | parent => "parent"
  | ancestor => "ancestor"
  | ancestorOrSelf => "ancestor-or-self"
  | followingSibling => "following-sibling"
  | precedingSibling => "preceding-sibling"
  | following => "following"
  | preceding => "preceding"
  | self => "self"
  | attributes => "attribute"
  | namespaces => "namespace"

/-- The axis of a given name, when there is one. -/
def ofName? (name : String) : Option Axis := all.find? (·.name == name)

/-- Whether positions count against document order. -/
def isReverse : Axis → Bool
  | parent | ancestor | ancestorOrSelf | precedingSibling | preceding => true
  | _ => false

theorem mem_all (a : Axis) : a ∈ all := by cases a <;> decide

theorem ofName?_name (a : Axis) : ofName? a.name = some a := by cases a <;> decide

end Axis

end TreeQuery
