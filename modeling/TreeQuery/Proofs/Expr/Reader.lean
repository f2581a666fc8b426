import TreeQuery.Expr.Parser
import TreeQuery.Proofs.Metered

/-!
The parser over a lexer. It draws tokens from the lexer one by one when it needs them, looks at one
token behind the current one at most, and knows nothing about how many there are: it calls itself
and goes round in loops as the text demands, on a budget that is given from outside.
-/
namespace TreeQuery.Expr

open TreeQuery.Text (Place isBlank)
open TreeQuery.Run (tick pass)

/-- What is left of a text, and what the lexer knows about what is behind. -/
structure Lexer where
  text : List Char
  place : Place := .start
  operatorAllowed : Bool := false

/-- A token or the end of the text, and its place. -/
abbrev Front := Option TokenKind × Place

/-- The next token. At the end of the text, the end is next again and again. -/
def Lexer.next (lexer : Lexer) : Except QueryError (Front × Lexer) :=
  let blanks := lexer.text.takeWhile isBlank
  let place := lexer.place.after blanks
  match lexer.text.drop blanks.length with
  | [] => .ok ((none, place), { text := [], place, operatorAllowed := true })
  | c :: cs =>
    match lexeme lexer.operatorAllowed c cs with
    | .error fault => .error (.parse fault place)
    | .ok (kind, width) =>
      .ok ((some kind, place),
        { text := (c :: cs).drop width
          place := place.after ((c :: cs).take width)
          operatorAllowed := kind.allowsOperator lexer.operatorAllowed })

/-- All tokens that are left. -/
def Lexer.tokens : Nat → Run Lexer (List Token)
  | 0 => Run.stuck
  | budget + 1 => do
    tick
    match (← Run.state).next with
    | .error e => throw e
    | .ok ((none, _), lexer) =>
      Run.setState lexer
      return []
    | .ok ((some kind, place), lexer) =>
      Run.setState lexer
      let rest ← tokens budget
      return ⟨kind, place⟩ :: rest

def Lexer.run (budget : Nat) (text : String) :
    Option (Except QueryError (List Token) × Metered Lexer) :=
  (tokens budget).outcome { state := { text := text.toList } }

/-- The current token, the one behind it if it was looked at, how many were drawn, and how many of
them were beyond the current one at most. -/
structure Reader where
  lexer : Lexer
  current : Front := (none, .start)
  peeked : Option Front := none
  drawn : Nat := 0
  beyond : Nat := 0

namespace Reader

variable {α : Type}

def draw : Run Reader Front := do
  let s ← get
  match s.state.lexer.next with
  | .error e => throw e
  | .ok (front, lexer) =>
    Run.setState
      { s.state with
        lexer
        drawn := s.state.drawn + 1
        beyond := max s.state.beyond (s.state.drawn - s.passed) }
    return front

/-- The token behind the current one, unless it is known already. -/
def next : Run Reader Front := do
  match (← Run.state).peeked with
  | some front => return front
  | none => draw

def setCurrent (current : Front) : Run Reader Unit := do
  Run.setState { ← Run.state with current, peeked := none }

def setPeeked (front : Front) : Run Reader Unit := do
  Run.setState { ← Run.state with peeked := some front }

def advance : Run Reader Unit := do
  setCurrent (← next)
  pass

def peek : Run Reader (Option TokenKind) := do
  let front ← next
  setPeeked front
  return front.1

def current? : Run Reader (Option TokenKind) := return (← Run.state).current.1

def fail (fault : Fault) : Run Reader α := do throw (.parse fault (← Run.state).current.2)

def unexpected : Run Reader α := do
  fail <|
    match ← current? with
    | none => .unexpectedEnd "expression"
    | some kind => .unexpectedToken kind.shown

def expect (kind : TokenKind) (what : String) : Run Reader Unit := do
  if (← current?) = some kind then advance else fail (.expected what)

/-! ## Steps without predicates -/

def typeTarget (text : String) : Run Reader (Option String) := do
  tick
  expect .leftParen "'('"
  match ← current? with
  | some (.string target) =>
    if text = "processing-instruction" then
      advance
      expect .rightParen "')'"
      return some target
    else
      expect .rightParen "')'"
      return none
  | _ =>
    expect .rightParen "')'"
    return none

def nodeTest : Run Reader NodeTest := do
  tick
  match ← current? with
  | some .star =>
    advance
    return .any
  | some (.name text) =>
    advance
    return .name text
  | some (.nameTest pfx localPart) =>
    advance
    return prefixedTest pfx localPart
  | some (.nodeType text) =>
    advance
    let target ← typeTarget text
    return typeTest text target
  | other => fail (.notANodeTest ((other.map TokenKind.shown).getD "Eof"))

def stepAxis : Run Reader Axis := do
  tick
  match ← current? with
  | some .atSign =>
    advance
    return .attributes
  | some (.axis text) =>
    match Axis.ofName? text with
    | none => throw (.unsupported (.axis text))
    | some axis =>
      advance
      expect .doubleColon "'::' after axis name"
      return axis
  | _ => return .child

def atStep : Run Reader Bool := do
  tick
  match ← current? with
  | some (.name _) | some (.nameTest _ _) => return (← peek) != some .leftParen
  | some .star | some .atSign | some .dot | some .doubleDot | some (.axis _) | some (.nodeType _) =>
    return true
  | _ => return false

/-! ## Levels of operators -/

section
variable (join? : TokenKind → Option (Expr → Expr → Expr)) (operand : Run Reader Expr)

def operators : Nat → Expr → Run Reader Expr
  | 0, _ => Run.stuck
  | budget + 1, left => do
    tick
    match (← current?).bind join? with
    | none => return left
    | some join =>
      advance
      let right ← operand
      operators budget (join left right)

def operation (budget : Nat) : Run Reader Expr := do
  tick
  let left ← operand
  operators join? operand budget left

def negation : Nat → Run Reader Expr
  | 0 => Run.stuck
  | budget + 1 => do
    tick
    if (← current?) = some .minus then
      advance
      let e ← negation budget
      return negate e
    else operand

end

/-! ## Expressions over those between brackets -/

section
variable (nested : Run Reader Expr)

def predicate : Run Reader Expr := do
  tick
  advance
  let e ← nested
  expect .rightBracket "']'"
  return e

def predicates : Nat → Run Reader (List Expr)
  | 0 => Run.stuck
  | budget + 1 => do
    tick
    if (← current?) = some .leftBracket then
      let e ← predicate nested
      let es ← predicates budget
      return e :: es
    else return []

def moreArguments : Nat → Run Reader (List Expr)
  | 0 => Run.stuck
  | budget + 1 => do
    tick
    if (← current?) = some .comma then
      advance
      let e ← nested
      let es ← moreArguments budget
      return e :: es
    else return []

def arguments (budget : Nat) : Run Reader (List Expr) := do
  if (← current?) = some .rightParen then return []
  else
    let e ← nested
    let es ← moreArguments nested budget
    return e :: es

def functionCall (budget : Nat) (function : String) : Run Reader Expr := do
  tick
  advance
  expect .leftParen "'(' after function name"
  let args ← arguments nested budget
  expect .rightParen "')' after function arguments"
  return call function args

def primary (budget : Nat) : Run Reader Expr := do
  tick
  match ← current? with
  | some (.number value) =>
    advance
    return number value
  | some (.string text) =>
    advance
    return string text
  | some (.reference text) =>
    advance
    return reference text
  | some .leftParen =>
    advance
    let e ← nested
    expect .rightParen "')'"
    return e
  | some (.name text) => functionCall nested budget text
  | some (.nameTest pfx localPart) => functionCall nested budget (pfx ++ ":" ++ localPart)
  | _ => unexpected

def filterParser (budget : Nat) : Run Reader Expr := do
  tick
  let e ← primary nested budget
  let es ← predicates nested budget
  return if es.isEmpty then e else filter e es

def stepParser (budget : Nat) : Run Reader Expr := do
  tick
  match ← current? with
  | some .dot =>
    advance
    return step .self .node []
  | some .doubleDot =>
    advance
    return step .parent .node []
  | _ =>
    let axis ← stepAxis
    let test ← nodeTest
    let es ← predicates nested budget
    return step axis test es

def moreSteps : Nat → Run Reader (List Expr)
  | 0 => Run.stuck
  | budget + 1 => do
    tick
    match ← current? with
    | some .slash =>
      advance
      let e ← stepParser nested budget
      let es ← moreSteps budget
      return e :: es
    | some .doubleSlash =>
      advance
      let e ← stepParser nested budget
      let es ← moreSteps budget
      return anyDepth :: e :: es
    | _ => return []

def steps (budget : Nat) : Run Reader (List Expr) := do
  tick
  let e ← stepParser nested budget
  let es ← moreSteps nested budget
  return e :: es

def filterPath (budget : Nat) : Run Reader Expr := do
  tick
  let e ← filterParser nested budget
  match ← current? with
  | some .slash =>
    advance
    let es ← steps nested budget
    return relative (e :: es)
  | some .doubleSlash =>
    advance
    let es ← steps nested budget
    return relative (e :: anyDepth :: es)
  | _ => return e

def absoluteTail (budget : Nat) : Run Reader Expr := do
  tick
  if ← atStep then
    let es ← steps nested budget
    return absolute es
  else return absolute []

def path (budget : Nat) : Run Reader Expr := do
  tick
  match ← current? with
  | some .slash =>
    advance
    absoluteTail nested budget
  | some .doubleSlash =>
    advance
    let es ← steps nested budget
    return absolute (anyDepth :: es)
  | _ =>
    if ← atStep then
      let es ← steps nested budget
      return relative es
    else filterPath nested budget

def unions (budget : Nat) : Run Reader Expr := operation unionJoin? (path nested budget) budget

def product (budget : Nat) : Run Reader Expr :=
  operation productJoin? (negation (unions nested budget) budget) budget

def sum (budget : Nat) : Run Reader Expr := operation sumJoin? (product nested budget) budget

def order (budget : Nat) : Run Reader Expr := operation orderJoin? (sum nested budget) budget

def equality (budget : Nat) : Run Reader Expr :=
  operation equalityJoin? (order nested budget) budget

def conjunction (budget : Nat) : Run Reader Expr :=
  operation andJoin? (equality nested budget) budget

def disjunction (budget : Nat) : Run Reader Expr :=
  operation orJoin? (conjunction nested budget) budget

end

/-! ## Whole texts -/

def expression : Nat → Run Reader Expr
  | 0 => Run.stuck
  | budget + 1 => do
    tick
    disjunction (expression budget) budget

def whole (budget : Nat) : Run Reader Expr := do
  setCurrent (← draw)
  let e ← expression budget
  if (← current?).isNone then return e else unexpected

def start (text : String) : Metered Reader := { state := { lexer := { text := text.toList } } }

/-- Reads a whole text as an expression. -/
def run (budget : Nat) (text : String) : Option (Except QueryError Expr × Metered Reader) :=
  (whole budget).outcome (start text)

end Reader

end TreeQuery.Expr
