/-!
Places in a text: line and column, both counted from one in words of 32 bits, which start again at
zero behind the largest. A line feed ends a line; every other character takes one column.
-/
namespace TreeQuery.Text

/-- A line and a column of a text. -/
structure Place where
  line : UInt32
  column : UInt32
deriving DecidableEq, Repr, Inhabited

namespace Place

/-- Where every text starts. -/
def start : Place := ⟨1, 1⟩

/-- The place behind one character. -/
def past (p : Place) (c : Char) : Place :=
  if c == '\n' then ⟨p.line + 1, 1⟩ else ⟨p.line, p.column + 1⟩

/-- The place behind a stretch of text. -/
def after (p : Place) (cs : List Char) : Place := cs.foldl past p

@[simp] theorem after_nil (p : Place) : p.after [] = p := rfl

@[simp] theorem after_cons (p : Place) (c : Char) (cs : List Char) :
    p.after (c :: cs) = (p.past c).after cs := rfl

theorem after_append (p : Place) (cs ds : List Char) :
    p.after (cs ++ ds) = (p.after cs).after ds := List.foldl_append

end Place

end TreeQuery.Text
