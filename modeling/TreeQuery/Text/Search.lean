/-!
Texts as rows of bytes. A text is looked for in another byte by byte, and a part of a text is cut
out between two places in its bytes, which both have to lie between two characters.
-/
namespace TreeQuery

/-- The part of a text between two places in its bytes, when both lie between two characters. -/
def slice? (text : String) (start stop : Nat) : Option String :=
  if h : start ≤ stop ∧ String.Pos.Raw.IsValid text ⟨start⟩ ∧ String.Pos.Raw.IsValid text ⟨stop⟩ then
    some (text.extract ⟨⟨start⟩, h.2.1⟩ ⟨⟨stop⟩, h.2.2⟩)
  else none

namespace Text

/-- The bytes of a text. -/
def bytes (text : String) : List UInt8 := text.toByteArray.data.toList

/-- The first place from which on the sought bytes stand in a row, when the row begins at the given
place. -/
def placeFrom (sought : List UInt8) (place : Nat) : List UInt8 → Option Nat
  | [] => if sought = [] then some place else none
  | b :: bs => if sought.isPrefixOf (b :: bs) then some place else placeFrom sought (place + 1) bs

/-- How many bytes lie in front of the first place where a text stands in another, when it has
one. -/
def offset? (sought text : String) : Option Nat := placeFrom (bytes sought) 0 (bytes text)

end Text

end TreeQuery
