import TreeQuery.Number.Basic
import TreeQuery.Text.Blank
import TreeQuery.Text.LowerCase
import TreeQuery.Text.Search

/-!
What the functions on texts compute.
-/
namespace TreeQuery.Function

open TreeQuery.Text (offset? lower words)

def startsWithText (text sought : String) : Bool := sought.toList.isPrefixOf text.toList

def containsText (text sought : String) : Bool := (offset? sought text).isSome

/-- What stands before the first place of a text in another, or nothing. -/
def textBefore (text sought : String) : String :=
  match offset? sought text with
  | some offset => (slice? text 0 offset).getD ""
  | none => ""

/-- What stands behind the first place of a text in another, or nothing. -/
def textAfter (text sought : String) : String :=
  match offset? sought text with
  | some offset => (slice? text (offset + sought.utf8ByteSize) text.utf8ByteSize).getD ""
  | none => ""

/-- The characters whose positions, counted from one, lie from `first` on and below `limit`. -/
def charsFrom (text : String) (first limit : Number) : String :=
  String.ofList <| ((text.toList.zipIdx 1).filter fun (_, i) =>
    first.le (Number.ofNat i) && (Number.ofNat i).lt limit).map (·.1)

/-- One blank between two words, and none elsewhere. -/
def singleSpaced (text : String) : String :=
  String.ofList ([' '].intercalate (words text.toList))

/-- What becomes of a character: it goes to the character at its first place in `sources`, and
away when there is none. -/
def translateChar (sources targets : List Char) (c : Char) : Option Char :=
  match sources.idxOf? c with
  | some i => targets[i]?
  | none => some c

def translateText (text sources targets : String) : String :=
  String.ofList (text.toList.filterMap (translateChar sources.toList targets.toList))

/-- Whether a language tag is the wanted one or a narrower one; case does not matter. -/
def languageFits (wanted tag : String) : Bool :=
  let wanted := lower wanted.toList
  let tag := lower tag.toList
  tag == wanted || (wanted ++ ['-']).isPrefixOf tag

end TreeQuery.Function
