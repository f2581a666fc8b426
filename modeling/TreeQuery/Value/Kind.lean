/-!
The four kinds of value that an expression can have, and their names in messages.
-/
namespace TreeQuery

inductive ValueKind where
  | nodeSet
  | boolean
  | number
  | string
deriving DecidableEq, Repr

namespace ValueKind

def name : ValueKind → String
  | nodeSet => "node-set"
  | boolean => "boolean"
  | number => "number"
  | string => "string"

end ValueKind

end TreeQuery
