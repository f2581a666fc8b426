import TreeQuery.Proofs.Metered
import TreeQuery.Selector.Parser

/-!
The lexer and the parser on a budget that is given from outside. The lexer goes on until it gives
the end of the text. The parser moves over the list of all tokens by an offset, and gets stuck where
the offset is beyond the list.
-/
namespace TreeQuery.Selector

open TreeQuery.Text (Place)
open TreeQuery.Run (tick pass)

/-! ## The lexer -/

/-- What is left of a text, and whether the next token is raw. -/
structure Lexer where
  text : List Char
  place : Place := .start
  raw : Bool := false

namespace Lexer

/-- The next token. At the end of the text, the end is next again and again. -/
def next (lexer : Lexer) : Except QueryError (Token × Lexer) :=
  if lexer.raw then
    let (kind, width) := rawAt lexer.text
    .ok (⟨kind, lexer.place⟩,
      { text := lexer.text.drop width, place := lexer.place.after (lexer.text.take width) })
  else
    match lexer.text with
    | [] => .ok (⟨.eof, lexer.place⟩, lexer)
    | c :: cs =>
      match lexeme c cs with
      | .error fault => .error (.parse fault lexer.place)
      | .ok (kind, width) =>
        .ok (⟨kind, lexer.place⟩,
          { text := (c :: cs).drop width
            place := lexer.place.after ((c :: cs).take width)
            raw := takesRaw kind })

def tokens : Nat → Run Lexer (List Token)
  | 0 => Run.stuck
  | budget + 1 => do
    tick
    match (← Run.state).next with
    | .error e => throw e
    | .ok (token, lexer) =>
      Run.setState lexer
      if token.kind = .eof then return [token]
      else
        let rest ← tokens budget
        return token :: rest

/-- All tokens of a text. -/
def run (budget : Nat) (text : String) :
    Option (Except QueryError (List Token) × Metered Lexer) :=
  (tokens budget).outcome { state := { text := text.toList } }

end Lexer

/-! ## The parser -/

/-- All tokens, and the offset of the current one. -/
structure Cursor where
  tokens : List Token
  offset : Nat := 0

namespace Cursor

variable {α : Type}

/-- The current token. There is none beyond the list. -/
def token : Run Cursor Token := do
  let cursor ← Run.state
  match cursor.tokens[min cursor.offset (cursor.tokens.length - 1)]? with
  | some token => return token
  | none => Run.stuck

def current : Run Cursor TokenKind := return (← token).kind

/-- Moves on, unless the current token is the last one. -/
def advance : Run Cursor Unit := do
  let cursor ← Run.state
  if cursor.offset + 1 < cursor.tokens.length then
    Run.setState { cursor with offset := cursor.offset + 1 }
    pass

def skipBlanks : Nat → Run Cursor Unit
  | 0 => Run.stuck
  | budget + 1 => do
    tick
    if (← current) = .whitespace then
      advance
      skipBlanks budget

def fail (fault : Fault) : Run Cursor α := do throw (.parse fault (← token).place)

def unexpected : Run Cursor α := do
  fail <|
    match ← current with
    | .eof => .unexpectedEnd "selector"
    | kind => .unexpectedToken kind.shown

def expect (kind : TokenKind) (what : String) : Run Cursor Unit := do
  if (← current) = kind then advance else fail (.expected what)

/-! ## Names and attributes -/

def namePart? : Run Cursor (Option NamePart) := do
  tick
  match ← current with
  | .star =>
    advance
    return some .any
  | .ident text =>
    advance
    return some (.name text)
  | _ => return none

def typeSelector : Run Cursor (Option TypeSelector) := do
  tick
  match ← namePart? with
  | none => return none
  | some first =>
    if (← current) = .pipe then
      advance
      match ← namePart? with
      | some name => return some ⟨some first, name⟩
      | none => fail (.expected "element name after '|'")
    else return some ⟨none, first⟩

def attrName : Run Cursor (Option NamePart × String) := do
  tick
  let first ← namePart?
  if (← current) = .pipe then
    advance
    match first, ← current with
    | some pfx, .ident name =>
      advance
      return (some pfx, name)
    | _, _ => fail (.expected "attribute name after '|'")
  else
    match first with
    | some (.name name) => return (none, name)
    | _ => fail (.expected "attribute name")

def attrComparison (budget : Nat) : Run Cursor (Option (AttrOp × String)) := do
  tick
  match attrOp? (← current) with
  | none => return none
  | some op =>
    advance
    skipBlanks budget
    match ← current with
    | .string value | .ident value =>
      advance
      skipBlanks budget
      return some (op, value)
    | _ => fail (.expected "attribute value")

def attrSelector (budget : Nat) : Run Cursor AttrSelector := do
  tick
  advance
  skipBlanks budget
  let (pfx, name) ← attrName
  skipBlanks budget
  let comparison ← attrComparison budget
  expect .rightBracket "']'"
  return ⟨pfx, name, comparison⟩

def nthArgument : Run Cursor Nth := do
  tick
  match ← current with
  | .raw text =>
    match Nth.parse? text with
    | some series =>
      advance
      return series
    | none => fail (.invalidNth text)
  | _ => unexpected

def className : Run Cursor Filter := do
  tick
  advance
  match ← current with
  | .ident name =>
    advance
    return .className name
  | _ => fail (.expected "class name after '.'")

/-! ## Compounds over inner ones -/

section
variable (inner : Run Cursor Compound)

def pseudoFunction (budget : Nat) (name : String) : Run Cursor Filter := do
  tick
  if "nth-".isPrefixOf name then
    let series ← nthArgument
    match nthClasses.lookup name with
    | some kind =>
      expect .rightParen "')'"
      return .structural (.nth kind series)
    | none => throw (.unsupported (.pseudoFunction name))
  else if name = "not" then
    skipBlanks budget
    let compound ← inner
    skipBlanks budget
    expect .rightParen "')'"
    return .not compound.element compound.filters
  else throw (.unsupported (.pseudoFunction name))

def pseudoClass (budget : Nat) : Run Cursor Filter := do
  tick
  advance
  match ← current with
  | .ident name =>
    match plainClasses.lookup name with
    | some condition =>
      advance
      return .structural condition
    | none => throw (.unsupported (.pseudoClass name))
  | .function name =>
    advance
    pseudoFunction inner budget name
  | .colon => throw (.unsupported .pseudoElements)
  | _ => fail (.expected "pseudo-class name after ':'")

def filter? (budget : Nat) : Run Cursor (Option Filter) := do
  tick
  match ← current with
  | .dot =>
    let f ← className
    return some f
  | .hash name =>
    advance
    return some (.id name)
  | .leftBracket =>
    let selector ← attrSelector budget
    return some (.attr selector)
  | .colon =>
    let f ← pseudoClass inner budget
    return some f
  | _ => return none

def filters : Nat → Run Cursor (List Filter)
  | 0 => Run.stuck
  | budget + 1 => do
    tick
    match ← filter? inner budget with
    | none => return []
    | some f =>
      let fs ← filters budget
      return f :: fs

def compoundWith (budget : Nat) : Run Cursor Compound := do
  let element ← typeSelector
  let filters ← filters inner budget
  if element.isNone && filters.isEmpty then fail (.expected "selector")
  else return ⟨element, filters⟩

end

def compound : Nat → Run Cursor Compound
  | 0 => Run.stuck
  | budget + 1 => do
    tick
    compoundWith (compound budget) budget

/-! ## Chains and lists -/

def combinator? (budget : Nat) : Run Cursor (Option Combinator) := do
  tick
  let spaced := (← current) = .whitespace
  skipBlanks budget
  match ← current with
  | .greater =>
    advance
    skipBlanks budget
    return some .child
  | .plus => throw (.unsupported (.combinator '+'))
  | .tilde => throw (.unsupported (.combinator '~'))
  | .comma | .eof => return none
  | _ =>
    if spaced then
      skipBlanks budget
      return some .descendant
    else unexpected

def tail : Nat → Run Cursor (List (Combinator × Compound))
  | 0 => Run.stuck
  | budget + 1 => do
    tick
    match ← combinator? budget with
    | none => return []
    | some combinator =>
      let c ← compound budget
      let more ← tail budget
      return (combinator, c) :: more

def skipGreater (budget : Nat) : Run Cursor Unit := do
  if (← current) = .greater then
    advance
    skipBlanks budget

def complex (budget : Nat) : Run Cursor Complex := do
  tick
  skipGreater budget
  let head ← compound budget
  let tail ← tail budget
  return ⟨head, tail⟩

def list : Nat → Run Cursor SelectorList
  | 0 => Run.stuck
  | budget + 1 => do
    tick
    skipBlanks budget
    let selector ← complex budget
    skipBlanks budget
    match ← current with
    | .comma =>
      advance
      let selectors ← list budget
      return selector :: selectors
    | .eof => return [selector]
    | _ => unexpected

/-- Reads tokens as a list of selectors. -/
def run (budget : Nat) (tokens : List Token) :
    Option (Except QueryError SelectorList × Metered Cursor) :=
  (list budget).outcome { state := { tokens } }

end Cursor

end TreeQuery.Selector
