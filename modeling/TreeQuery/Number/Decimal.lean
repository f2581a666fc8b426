import TreeQuery.Number.Basic

/-!
Shortest decimals. Every finite number has an exact decimal with 1074 places. `shortest` looks at
coarser and coarser decimal grids from the coarsest down, and takes the first grid on which one of
the two points beside the number reads back as the number; so no decimal with fewer digits does.
-/
namespace TreeQuery.Number

/-- A decimal: `digits · 10 ^ exponent`. -/
structure Decimal where
  digits : Nat
  exponent : Int
deriving DecidableEq, Repr

/-- The exact decimal of a count, as a number of steps of `10 ^ -1074`. -/
def exactDecimal (count : Nat) : Nat := count * Nat.pow 5 1074

/-- Whether a number of steps of `10 ^ -1074` is read as the given count. -/
def readsAs (count steps : Nat) : Bool := nearest (steps * oneCount) (Nat.pow 10 1074) == count

/-- Of the two multiples of a step beside an exact value, the one that reads back, when there is
one: the nearer of the two, and the upper one when both are as near. -/
def pointBeside? (reads : Nat → Bool) (exact step : Nat) : Option Nat :=
  let lower := exact / step
  let upper := lower + 1
  match reads (lower * step), reads (upper * step) with
  | true, true => some (if exact - lower * step < upper * step - exact then lower else upper)
  | true, false => some lower
  | false, true => some upper
  | false, false => none

/-- The point of the grid of step `10 ^ p` that is read as the given count, when there is one. -/
def gridPoint? (count p : Nat) : Option Nat :=
  pointBeside? (readsAs count) (exactDecimal count) (Nat.pow 10 p)

/-- The first grid of step at most `10 ^ p` with a point, or else the exact decimal. -/
def shortestFrom (exact : Nat) (point? : Nat → Option Nat) : Nat → Decimal
  | 0 => ⟨exact, -1074⟩
  | p + 1 =>
    match point? (p + 1) with
    | some digits => ⟨digits, (p + 1 : Nat) - 1074⟩
    | none => shortestFrom exact point? p

/-- The shortest decimal that is read as the given count. The search starts above the first digit:
a binary digit is worth less than 0.3011 decimal ones. -/
def shortest (count : Nat) : Decimal :=
  shortestFrom (exactDecimal count) (gridPoint? count)
    ((exactDecimal count).log2 * 3011 / 10000 + 1)

end TreeQuery.Number
