import TreeQuery.Selector.Nth

/-!
Selectors. A compound says what one element must be like; a complex selector is a chain of
compounds with combinators between them; a list of them selects whatever one of them does.
-/
namespace TreeQuery.Selector

/-- A name, or a star for any. -/
inductive NamePart where
  | any
  | name (text : String)
deriving DecidableEq, Repr

/-- The name of an element, with or without a prefix. -/
structure TypeSelector where
  pfx : Option NamePart
  name : NamePart
deriving DecidableEq, Repr

/-- How an attribute is compared with a text. -/
inductive AttrOp where
  | equals
  /-- The text is one of its words. -/
  | includes
  /-- It is the text, or starts with the text and a hyphen. -/
  | dashMatch
  | startsWith
  | endsWith
  | contains
deriving DecidableEq, Repr

structure AttrSelector where
  pfx : Option NamePart
  name : String
  comparison : Option (AttrOp × String)
deriving DecidableEq, Repr

/-- From which end positions count, and among which siblings. -/
inductive NthKind where
  | child | lastChild | ofType | lastOfType
deriving DecidableEq, Repr

/-- Conditions on where an element stands in its tree. -/
inductive Structural where
  | root | empty | firstChild | lastChild | onlyChild | firstOfType | lastOfType | onlyOfType
  | nth (kind : NthKind) (series : Nth)
deriving DecidableEq, Repr

/-- One condition on an element. -/
inductive Filter where
  | className (text : String)
  | id (text : String)
  | attr (selector : AttrSelector)
  | structural (condition : Structural)
  /-- The element does not satisfy a compound. -/
  | not (element : Option TypeSelector) (filters : List Filter)

/-- What one element must be like: its name, if one is given, and all filters. -/
structure Compound where
  element : Option TypeSelector
  filters : List Filter

inductive Combinator where
  /-- Anywhere below. -/
  | descendant
  | child
deriving DecidableEq, Repr

/-- A compound and the ones that lead on from it. -/
structure Complex where
  head : Compound
  tail : List (Combinator × Compound)

/-- Selectors with commas between them. -/
abbrev SelectorList := List Complex

end TreeQuery.Selector
