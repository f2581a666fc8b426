import TreeQuery.Value.Basic

/-!
What a caller settles for one evaluation: URIs for the prefixes of node tests, values for
variables, and how a number in a predicate becomes a position.
-/
namespace TreeQuery

/-- How a number becomes a position: without its fraction, or rounded with halves going up. -/
inductive Rounding where
  | truncate
  | halfUp
deriving DecidableEq, Repr, Inhabited

namespace Rounding

/-- Whether a number selects a position, counted from one. Only finite numbers do. -/
def selects (rounding : Rounding) (position : Nat) (n : Number) : Bool :=
  n.isFinite &&
    match rounding with
    | truncate => n.trunc.eq (Number.ofNat position)
    | halfUp => n.round.eq (Number.ofNat position)

end Rounding

structure QueryOptions where
  /-- URIs of prefixes. Without any, prefixes are compared as they are written. -/
  aliases : List (String × String) := []
  values : List (String × Value) := []
  rounding : Rounding := .truncate
deriving Inhabited

namespace QueryOptions

/-- The value bound to a name. -/
def value (options : QueryOptions) (name : String) : Except QueryError Value :=
  match options.values.lookup name with
  | some value => .ok value
  | none => .error (.unboundVariable name)

end QueryOptions

end TreeQuery
