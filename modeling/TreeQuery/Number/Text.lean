import TreeQuery.Number.Decimal
import TreeQuery.Text.Blank

/-!
Numbers as texts. `render` is how a number becomes a string: all digits, never an exponent.
`literal` is how messages show one: always a fraction, and an exponent far from one. `read` takes
a sign, digits and a point, and gives what is not a number for any other text.
-/
namespace TreeQuery.Number

open TreeQuery.Text

/-! ## Writing -/

def zeros (n : Nat) : List Char := List.replicate n '0'

/-- Digits with the decimal point behind the first `point` of them, where zeros fill up. -/
def positional (digits : List Char) (point : Int) : List Char :=
  if point ≤ 0 then '0' :: '.' :: (zeros (-point).toNat ++ digits)
  else if point.toNat < digits.length then
    digits.take point.toNat ++ '.' :: digits.drop point.toNat
  else digits ++ zeros (point.toNat - digits.length)

/-- Digits with the point behind the first and a power of ten. -/
def scientific (digits : List Char) (point : Int) : List Char :=
  let fraction := digits.drop 1
  digits.take 1 ++ (if fraction.isEmpty then [] else '.' :: fraction) ++
    'e' :: (toString (point - 1)).toList

/-- The shortest digits of a count and how many of them stand before the decimal point. -/
def shortestDigits (count : Nat) : List Char × Int :=
  let d := shortest count
  let digits := Nat.toDigits 10 d.digits
  (digits, digits.length + d.exponent)

def signed (negative : Bool) (cs : List Char) : List Char := if negative then '-' :: cs else cs

/-- The text of a number as a string value: shortest digits without an exponent, one zero for both
zeros. -/
def render : Number → String
  | .nan => "NaN"
  | .infinite negative => if negative then "-Infinity" else "Infinity"
  | .finite negative count _ =>
    if count = 0 then "0"
    else
      let (digits, point) := shortestDigits count
      String.ofList (signed negative (positional digits point))

/-- The text of a number in a message: always with a fraction, or with an exponent from `10 ^ 16`
on and below `10 ^ -4`. -/
def literal : Number → String
  | .nan => "NaN"
  | .infinite negative => if negative then "-inf" else "inf"
  | .finite negative count _ =>
    let body :=
      if count = 0 then ['0', '.', '0']
      else
        let (digits, point) := shortestDigits count
        if point < -3 || 16 < point then scientific digits point
        else if digits.length ≤ point then positional digits point ++ ['.', '0']
        else positional digits point
    String.ofList (signed negative body)

/-! ## Reading -/

def digitValue (c : Char) : Nat := c.toNat - 48

/-- The natural number that decimal digits spell. -/
def digitsValue (cs : List Char) : Nat := cs.foldl (fun n c => 10 * n + digitValue c) 0

/-- The number spelled by the digits before and behind a decimal point. -/
def ofDigits (whole fraction : List Char) : Number :=
  ofDecimal (digitsValue (whole ++ fraction)) fraction.length

/-- Digits with at most one point among them, and at least one digit. -/
def ofUnsigned? (cs : List Char) : Option Number :=
  let whole := cs.takeWhile Char.isDigit
  match cs.dropWhile Char.isDigit with
  | [] => if whole.isEmpty then none else some (ofDigits whole [])
  | '.' :: fraction =>
    if fraction.all Char.isDigit && !(whole.isEmpty && fraction.isEmpty) then
      some (ofDigits whole fraction)
    else none
  | _ => none

/-- Reads a number between XML blanks, with an optional minus sign. -/
def read (text : String) : Number :=
  match trim isXmlBlank text.toList with
  | '-' :: cs => (ofUnsigned? cs).elim .nan neg
  | cs => (ofUnsigned? cs).getD .nan

end TreeQuery.Number
