import TreeQuery.Expr.Basic
import TreeQuery.Selector.Parser

/-!
Selectors as expressions. Each compound becomes one step to a child, whose predicates are its
filters; a descendant combinator puts a step to any element at or below in between; and a list
becomes a union.
-/
namespace TreeQuery.Selector

/-! ## Building blocks -/

/-- A path of one step without predicates. -/
def stepPath (axis : Axis) (test : NodeTest) : Expr := .relative [.step axis test []]

def integer (i : Int) : Expr := .number (Number.ofInt i)

def NamePart.test (pfx : Option NamePart) (name : NamePart) : NodeTest :=
  match pfx, name with
  | none, any | some any, any => .any
  | none, .name localPart => .name localPart
  | some any, .name localPart => .anyNamed localPart
  | some (.name pfx), any => .anyIn pfx
  | some (.name pfx), .name localPart => .qualified pfx localPart

/-- The test for the elements that a compound speaks of. -/
def elementTest : Option TypeSelector → NodeTest
  | none => .any
  | some selector => NamePart.test selector.pfx selector.name

/-! ## Attributes -/

def attrEquals (name text : String) : Expr :=
  .binary .eq (stepPath .attributes (.name name)) (.string text)

/-- The condition that an attribute compares with a text. -/
def AttrOp.condition (op : AttrOp) (attr : Expr) (text : String) : Expr :=
  match op with
  | equals => .binary .eq attr (.string text)
  | includes =>
    .call "contains"
      [.call "concat" [.string " ", attr, .string " "],
        .call "concat" [.string " ", .string text, .string " "]]
  | dashMatch =>
    .binary .or (.binary .eq attr (.string text))
      (.call "starts-with" [attr, .call "concat" [.string text, .string "-"]])
  | startsWith => .call "starts-with" [attr, .string text]
  | endsWith =>
    let start :=
      .binary .add
        (.binary .sub (.call "string-length" [attr]) (.call "string-length" [.string text]))
        (integer 1)
    .binary .eq (.call "substring" [attr, start]) (.string text)
  | contains => .call "contains" [attr, .string text]

def AttrSelector.condition (selector : AttrSelector) : Expr :=
  let attr := stepPath .attributes (NamePart.test selector.pfx (.name selector.name))
  match selector.comparison with
  | none => attr
  | some (op, text) => op.condition attr text

/-! ## Positions -/

/-- How many siblings on an axis pass a test. -/
def countOf (axis : Axis) (test : NodeTest) : Expr := .call "count" [stepPath axis test]

def noneOn (axis : Axis) (test : NodeTest) : Expr := .binary .eq (countOf axis test) (integer 0)

def noneBeside (test : NodeTest) : Expr :=
  .binary .and (noneOn .precedingSibling test) (noneOn .followingSibling test)

/-- The position of an element, one more than the siblings that are counted before it. -/
def positionOn (axis : Axis) (test : NodeTest) : Expr :=
  .binary .add (countOf axis test) (integer 1)

/-- Whether a position is in a series: it is not before the first place in the direction of the
steps, and a whole number of steps away from it. -/
def Nth.condition (series : Nth) (position : Expr) : Expr :=
  if series.a = 0 then .binary .eq position (integer series.b)
  else
    let bound : BinaryOp := if 0 < series.a then .ge else .le
    let distance :=
      if series.b < 0 then .binary .add position (integer (-series.b))
      else .binary .sub position (integer series.b)
    .binary .and (.binary bound position (integer series.b))
      (.binary .eq (.binary .mod distance (integer series.a.natAbs)) (integer 0))

/-- The condition of a structural pseudo-class; `test` tells the elements of the same type. -/
def Structural.condition (test : NodeTest) : Structural → Expr
  | root => .call "not" [stepPath .parent .any]
  | empty => .call "not" [stepPath .child .node]
  | firstChild => noneOn .precedingSibling .any
  | lastChild => noneOn .followingSibling .any
  | onlyChild => noneBeside .any
  | firstOfType => noneOn .precedingSibling test
  | lastOfType => noneOn .followingSibling test
  | onlyOfType => noneBeside test
  | nth .child series => series.condition (positionOn .precedingSibling .any)
  | nth .lastChild series => series.condition (positionOn .followingSibling .any)
  | nth .ofType series => series.condition (positionOn .precedingSibling test)
  | nth .lastOfType series => series.condition (positionOn .followingSibling test)

/-! ## Compounds and chains -/

mutual

/-- The condition of one filter of a compound whose elements pass `test`. -/
def Filter.condition (test : NodeTest) : Filter → Expr
  | className text => attrEquals "class" text
  | id text => attrEquals "id" text
  | attr selector => selector.condition
  | structural s => s.condition test
  | not element filters =>
    .call "not"
      [.relative
        [.step .self (elementTest element) (Filter.conditions (elementTest element) filters)]]

def Filter.conditions (test : NodeTest) : List Filter → List Expr
  | [] => []
  | f :: fs => f.condition test :: Filter.conditions test fs

end

/-- The step along an axis to the elements that satisfy a compound. -/
def Compound.step (axis : Axis) (compound : Compound) : Expr :=
  let test := elementTest compound.element
  .step axis test (Filter.conditions test compound.filters)

/-- The steps from one element of a chain to the next. -/
def Combinator.steps (combinator : Combinator) (compound : Compound) : List Expr :=
  match combinator with
  | child => [compound.step .child]
  | descendant => [.step .descendantOrSelf .any [], compound.step .child]

def Complex.toExpr (selector : Complex) : Expr :=
  .relative
    (selector.head.step .child ::
      selector.tail.flatMap fun (combinator, compound) => combinator.steps compound)

/-- The expression that selects what a list of selectors selects. -/
def toExpr : SelectorList → Expr
  | [] => .relative []
  | selector :: selectors => (selectors.map Complex.toExpr).foldl Expr.union selector.toExpr

/-- Reads a text as a list of selectors, as an expression. -/
def parseToExpr (text : String) : Except QueryError Expr := (parse text).map toExpr

end TreeQuery.Selector
