import TreeQuery.Text.Blank

/-!
Series of positions `a·n + b` for `n = 0, 1, 2, …`, as selectors write them. Blanks and the case of
ASCII letters do not matter; both coefficients are 32-bit integers.
-/
namespace TreeQuery.Selector

structure Nth where
  a : Int
  b : Int
deriving DecidableEq, Repr

namespace Nth

open TreeQuery.Text (isBlank)

/-- An integer of 32 bits. -/
def inRange (i : Int) : Bool := -2147483648 ≤ i && i ≤ 2147483647

/-- The natural number that digits spell; there must be one digit at least, and nothing else. -/
def digits? (cs : List Char) : Option Nat :=
  if cs.isEmpty || !cs.all Char.isDigit then none
  else some (cs.foldl (fun n c => 10 * n + (c.toNat - 48)) 0)

/-- An integer with or without a sign. -/
def signed? (cs : List Char) : Option Int :=
  let value? :=
    match cs with
    | '-' :: ds => (digits? ds).map fun n => -(n : Int)
    | '+' :: ds => (digits? ds).map Int.ofNat
    | ds => (digits? ds).map Int.ofNat
  value?.filter inRange

/-- The factor of `n`: one when only a sign is written, or nothing. -/
def factor? : List Char → Option Int
  | [] | ['+'] => some 1
  | ['-'] => some (-1)
  | cs => signed? cs

/-- What is added; it needs a sign unless it is left out. -/
def offset? : List Char → Option Int
  | [] => some 0
  | '+' :: cs => signed? ('+' :: cs)
  | '-' :: cs => signed? ('-' :: cs)
  | _ => none

/-- A series from its text without blanks, in lower case. -/
def ofChars? (cs : List Char) : Option Nth :=
  if cs = "odd".toList then some ⟨2, 1⟩
  else if cs = "even".toList then some ⟨2, 0⟩
  else
    match cs.dropWhile (· != 'n') with
    | [] => (signed? cs).map fun b => ⟨0, b⟩
    | _ :: rest => do
      let a ← factor? (cs.takeWhile (· != 'n'))
      let b ← offset? rest
      some ⟨a, b⟩

def parse? (text : String) : Option Nth :=
  ofChars? ((text.toList.filter (!isBlank ·)).map Char.toLower)

end Nth

end TreeQuery.Selector
