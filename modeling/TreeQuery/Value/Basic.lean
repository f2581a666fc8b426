import TreeQuery.Error
import TreeQuery.Number.Basic
import TreeQuery.Tree.Node

/-!
Values of expressions.
-/
namespace TreeQuery

inductive Value where
  | nodes (ids : List NodeId)
  | boolean (value : Bool)
  | number (value : Number)
  | string (value : String)
deriving DecidableEq

namespace Value

instance : Inhabited Value := ⟨.nodes []⟩

def kind : Value → ValueKind
  | nodes _ => .nodeSet
  | boolean _ => .boolean
  | number _ => .number
  | string _ => .string

def ofNat (n : Nat) : Value := number (Number.ofNat n)

def isBoolean : Value → Bool
  | boolean _ => true
  | _ => false

def isNodes : Value → Bool
  | nodes _ => true
  | _ => false

def nodes? : Value → Option (List NodeId)
  | nodes ids => some ids
  | _ => none

def number? : Value → Option Number
  | number value => some value
  | _ => none

/-- The nodes of a node-set; no other value will do. -/
def toNodes : Value → Except QueryError (List NodeId)
  | nodes ids => .ok ids
  | v => .error (.notANodeSet v.kind)

end Value

end TreeQuery
