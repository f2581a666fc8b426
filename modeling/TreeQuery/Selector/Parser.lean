import TreeQuery.Selector.Basic
import TreeQuery.Selector.Token.Lexer

/-!
Reading selectors from tokens. A compound can hold another one only inside `:not(…)`, so the parser
for compounds takes the parser for inner ones as an argument, and `compoundNested` ties the knot.
-/
namespace TreeQuery.Selector

open TreeQuery.Text (Place)

/-! ## Moving over tokens -/

/-- The tokens that are left to read; behind the last one there is the end of the text. -/
structure Input where
  ahead : List Token
  finish : Place

namespace Input

def current (input : Input) : TokenKind := ((input.ahead.head?).map (·.kind)).getD .eof

def place (input : Input) : Place := ((input.ahead.head?).map (·.place)).getD input.finish

def advance (input : Input) : Input := { input with ahead := input.ahead.tail }

def skipBlanks (input : Input) : Input :=
  { input with ahead := input.ahead.dropWhile fun token => token.kind == .whitespace }

def fail {α : Type} (fault : Fault) (input : Input) : Except QueryError α :=
  .error (.parse fault input.place)

/-- Fails because the token in front can start nothing here. -/
def unexpected {α : Type} (input : Input) : Except QueryError α :=
  input.fail <|
    match input.current with
    | .eof => .unexpectedEnd "selector"
    | kind => .unexpectedToken kind.shown

/-- Leaves a token of the given kind behind. -/
def expect (kind : TokenKind) (what : String) (input : Input) : Except QueryError Input :=
  if input.current = kind then .ok input.advance else input.fail (.expected what)

/-- The tokens of a text. -/
def ofText (text : String) : Except QueryError Input := do
  let tokens ← tokenize text
  .ok
    { ahead := tokens.filter fun token => token.kind != .eof
      finish := ((tokens.getLast?).map (·.place)).getD .start }

end Input

/-- Reads a part of a selector and gives the tokens behind it. -/
abbrev Parser (α : Type) := Input → Except QueryError (α × Input)

/-! ## Names -/

/-- A star or a name, if one is in front. -/
def namePart? (input : Input) : Option NamePart × Input :=
  match input.current with
  | .star => (some .any, input.advance)
  | .ident text => (some (.name text), input.advance)
  | _ => (none, input)

def typeSelector : Parser (Option TypeSelector) := fun input =>
  match namePart? input with
  | (none, input) => .ok (none, input)
  | (some first, input) =>
    if input.current = .pipe then
      match namePart? input.advance with
      | (some name, input) => .ok (some ⟨some first, name⟩, input)
      | (none, input) => input.fail (.expected "element name after '|'")
    else .ok (some ⟨none, first⟩, input)

/-! ## Attributes -/

def attrOp? : TokenKind → Option AttrOp
  | .eq => some .equals
  | .includes => some .includes
  | .dashMatch => some .dashMatch
  | .prefixMatch => some .startsWith
  | .suffixMatch => some .endsWith
  | .substring => some .contains
  | _ => none

/-- The name of an attribute, with or without a prefix. -/
def attrName : Parser (Option NamePart × String) := fun input =>
  let (first, input) := namePart? input
  if input.current = .pipe then
    let input := input.advance
    match first, input.current with
    | some pfx, .ident name => .ok ((some pfx, name), input.advance)
    | _, _ => input.fail (.expected "attribute name after '|'")
  else
    match first with
    | some (.name name) => .ok ((none, name), input)
    | _ => input.fail (.expected "attribute name")

/-- The comparison of an attribute, if there is one. -/
def attrComparison : Parser (Option (AttrOp × String)) := fun input =>
  match attrOp? input.current with
  | none => .ok (none, input)
  | some op =>
    let input := input.advance.skipBlanks
    match input.current with
    | .string value | .ident value => .ok (some (op, value), input.advance.skipBlanks)
    | _ => input.fail (.expected "attribute value")

/-- A selector between brackets; the token in front is the left one. -/
def attrSelector : Parser AttrSelector := fun input => do
  let ((pfx, name), input) ← attrName input.advance.skipBlanks
  let (comparison, input) ← attrComparison input.skipBlanks
  .ok (⟨pfx, name, comparison⟩, ← input.expect .rightBracket "']'")

/-! ## Pseudo-classes -/

/-- Pseudo-classes without argument. -/
def plainClasses : List (String × Structural) :=
  [("root", .root), ("empty", .empty), ("first-child", .firstChild), ("last-child", .lastChild),
    ("only-child", .onlyChild), ("first-of-type", .firstOfType), ("last-of-type", .lastOfType),
    ("only-of-type", .onlyOfType)]

/-- Pseudo-classes that take a series of positions. -/
def nthClasses : List (String × NthKind) :=
  [("nth-child", .child), ("nth-last-child", .lastChild), ("nth-of-type", .ofType),
    ("nth-last-of-type", .lastOfType)]

def nthArgument : Parser Nth := fun input =>
  match input.current with
  | .raw text =>
    match Nth.parse? text with
    | some series => .ok (series, input.advance)
    | none => input.fail (.invalidNth text)
  | _ => input.unexpected

section
variable (inner : Parser Compound)

/-- A pseudo-class that is written with parentheses; they open in front of the tokens. -/
def pseudoFunction (name : String) : Parser Filter := fun input =>
  if "nth-".isPrefixOf name then do
    let (series, input) ← nthArgument input
    match nthClasses.lookup name with
    | some kind => .ok (.structural (.nth kind series), ← input.expect .rightParen "')'")
    | none => .error (.unsupported (.pseudoFunction name))
  else if name = "not" then do
    let (compound, input) ← inner input.skipBlanks
    .ok (.not compound.element compound.filters,
      ← input.skipBlanks.expect .rightParen "')'")
  else .error (.unsupported (.pseudoFunction name))

/-- A pseudo-class; the token in front is its colon. -/
def pseudoClass : Parser Filter := fun input =>
  let input := input.advance
  match input.current with
  | .ident name =>
    match plainClasses.lookup name with
    | some condition => .ok (.structural condition, input.advance)
    | none => .error (.unsupported (.pseudoClass name))
  | .function name => pseudoFunction inner name input.advance
  | .colon => .error (.unsupported .pseudoElements)
  | _ => input.fail (.expected "pseudo-class name after ':'")

/-! ## Compounds -/

/-- A class name; the token in front is its dot. -/
def className : Parser Filter := fun input =>
  let input := input.advance
  match input.current with
  | .ident name => .ok (.className name, input.advance)
  | _ => input.fail (.expected "class name after '.'")

/-- The next filter, if one is in front. -/
def filter? : Parser (Option Filter) := fun input =>
  match input.current with
  | .dot => do
    let (f, input) ← className input
    .ok (some f, input)
  | .hash name => .ok (some (.id name), input.advance)
  | .leftBracket => do
    let (selector, input) ← attrSelector input
    .ok (some (.attr selector), input)
  | .colon => do
    let (f, input) ← pseudoClass inner input
    .ok (some f, input)
  | _ => .ok (none, input)

/-- Filters in a row, at most so many. -/
def filtersFrom : Nat → Parser (List Filter)
  | 0, input => .ok ([], input)
  | rounds + 1, input => do
    match ← filter? inner input with
    | (none, input) => .ok ([], input)
    | (some f, input) =>
      let (fs, input) ← filtersFrom rounds input
      .ok (f :: fs, input)

/-- A compound over a given parser for inner ones. It must not be empty. -/
def compoundWith : Parser Compound := fun input => do
  let (element, input) ← typeSelector input
  let (filters, input) ← filtersFrom inner input.ahead.length input
  if element.isNone && filters.isEmpty then input.fail (.expected "selector")
  else .ok (⟨element, filters⟩, input)

end

/-- Compounds with others nested at most so deep. -/
def compoundNested : Nat → Parser Compound
  | 0, input => input.fail (.expected "selector")
  | depth + 1, input => compoundWith (compoundNested depth) input

def compound : Parser Compound := fun input => compoundNested (input.ahead.length + 1) input

/-! ## Chains and lists -/

/-- The combinator in front of another compound, if the selector goes on. -/
def combinator? : Parser (Option Combinator) := fun input =>
  let spaced := input.current = .whitespace
  let input := input.skipBlanks
  match input.current with
  | .greater => .ok (some .child, input.advance.skipBlanks)
  | .plus => .error (.unsupported (.combinator '+'))
  | .tilde => .error (.unsupported (.combinator '~'))
  | .comma | .eof => .ok (none, input)
  | _ => if spaced then .ok (some .descendant, input.skipBlanks) else input.unexpected

/-- The compounds behind the first, at most so many. -/
def tailFrom : Nat → Parser (List (Combinator × Compound))
  | 0, input => .ok ([], input)
  | rounds + 1, input => do
    match ← combinator? input with
    | (none, input) => .ok ([], input)
    | (some combinator, input) =>
      let (c, input) ← compound input
      let (tail, input) ← tailFrom rounds input
      .ok ((combinator, c) :: tail, input)

/-- A chain of compounds. A child combinator in front of it changes nothing. -/
def complex : Parser Complex := fun input => do
  let input := if input.current = .greater then input.advance.skipBlanks else input
  let (head, input) ← compound input
  let (tail, input) ← tailFrom (input.ahead.length + 1) input
  .ok (⟨head, tail⟩, input)

/-- Selectors with commas between them, at most so many. -/
def listFrom : Nat → Input → Except QueryError SelectorList
  | 0, input => input.unexpected
  | rounds + 1, input => do
    let (selector, input) ← complex input.skipBlanks
    let input := input.skipBlanks
    match input.current with
    | .comma =>
      let selectors ← listFrom rounds input.advance
      .ok (selector :: selectors)
    | .eof => .ok [selector]
    | _ => input.unexpected

/-- Reads a whole text as a list of selectors. -/
def parse (text : String) : Except QueryError SelectorList := do
  let input ← Input.ofText text
  listFrom (input.ahead.length + 1) input

end TreeQuery.Selector
