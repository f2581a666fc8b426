import TreeQuery.Expr.Basic
import TreeQuery.Expr.Token.Lexer

/-!
Reading expressions from tokens. From the loosest to the tightest: `or`, `and`, equality, order,
sums, products, the minus sign, unions, paths. Each level is a chain of operands of the next one.
The parser for what stands between brackets is an argument of all others, so `parseNested` ties the
knot once, and every bracket costs it one round.

An error in the tokens counts only when the parser gets to it: `Tokens.advance` and `Tokens.peek`
are the two ways to get there.
-/
namespace TreeQuery.Expr

open TreeQuery.Text (Place)

/-! ## Moving over tokens -/

namespace Tokens

/-- The token in front, unless all are read. -/
def current? (ts : Tokens) : Option TokenKind := ts.ahead.head?.map (·.kind)

/-- The place of the token in front, or the end of the text. -/
def place (ts : Tokens) : Place :=
  match ts.ahead, ts.stop with
  | token :: _, _ => token.place
  | [], .ok place => place
  | [], .error _ => .start

/-- The tokens themselves, unless the next thing to read is an error. -/
def checked (ts : Tokens) : Except QueryError Tokens :=
  match ts.ahead, ts.stop with
  | [], .error e => .error e
  | _, _ => .ok ts

/-- Leaves the token in front behind. -/
def advance (ts : Tokens) : Except QueryError Tokens := { ts with ahead := ts.ahead.tail }.checked

/-- The token behind the one in front. -/
def peek (ts : Tokens) : Except QueryError (Option TokenKind) := ts.advance.map current?

def fail {α : Type} (fault : Fault) (ts : Tokens) : Except QueryError α :=
  .error (.parse fault ts.place)

/-- Fails because the token in front can start nothing here. -/
def unexpected {α : Type} (ts : Tokens) : Except QueryError α :=
  ts.fail <|
    match ts.current? with
    | none => .unexpectedEnd "expression"
    | some kind => .unexpectedToken kind.shown

/-- Leaves a token of the given kind behind. -/
def expect (kind : TokenKind) (what : String) (ts : Tokens) : Except QueryError Tokens :=
  if ts.current? = some kind then ts.advance else ts.fail (.expected what)

end Tokens

/-- Reads a part of an expression and gives the tokens behind it. -/
abbrev Parser (α : Type) := Tokens → Except QueryError (α × Tokens)

/-! ## Chains of operands -/

/-- Goes on with a chain whose left part is read, for at most so many operators. -/
def chainFrom (operand : Parser Expr) (join? : TokenKind → Option (Expr → Expr → Expr)) :
    Nat → Expr → Parser Expr
  | 0, left, ts => .ok (left, ts)
  | rounds + 1, left, ts =>
    match ts.current?.bind join? with
    | none => .ok (left, ts)
    | some join => do
      let (right, ts) ← operand (← ts.advance)
      chainFrom operand join? rounds (join left right) ts

/-- Operands with operators of one level between them, grouped to the left. -/
def chain (join? : TokenKind → Option (Expr → Expr → Expr)) (operand : Parser Expr) : Parser Expr :=
  fun ts => do
    let (left, ts) ← operand ts
    chainFrom operand join? ts.ahead.length left ts

def orJoin? : TokenKind → Option (Expr → Expr → Expr)
  | .or => some (binary .or)
  | _ => none

def andJoin? : TokenKind → Option (Expr → Expr → Expr)
  | .and => some (binary .and)
  | _ => none

def equalityJoin? : TokenKind → Option (Expr → Expr → Expr)
  | .eq => some (binary .eq)
  | .notEq => some (binary .ne)
  | _ => none

def orderJoin? : TokenKind → Option (Expr → Expr → Expr)
  | .lt => some (binary .lt)
  | .ltEq => some (binary .le)
  | .gt => some (binary .gt)
  | .gtEq => some (binary .ge)
  | _ => none

def sumJoin? : TokenKind → Option (Expr → Expr → Expr)
  | .plus => some (binary .add)
  | .minus => some (binary .sub)
  | _ => none

def productJoin? : TokenKind → Option (Expr → Expr → Expr)
  | .star => some (binary .mul)
  | .div => some (binary .div)
  | .mod => some (binary .mod)
  | _ => none

def unionJoin? : TokenKind → Option (Expr → Expr → Expr)
  | .pipe => some union
  | _ => none

/-- Minus signs in front of an operand, for at most so many of them. -/
def negationFrom (operand : Parser Expr) : Nat → Parser Expr
  | 0, ts => operand ts
  | rounds + 1, ts =>
    if ts.current? = some .minus then do
      let (e, ts) ← negationFrom operand rounds (← ts.advance)
      .ok (negate e, ts)
    else operand ts

def negation (operand : Parser Expr) : Parser Expr :=
  fun ts => negationFrom operand ts.ahead.length ts

/-! ## Predicates and arguments -/

section
variable (nested : Parser Expr)

/-- One predicate; the token in front is its left bracket. -/
def predicate : Parser Expr := fun ts => do
  let (e, ts) ← nested (← ts.advance)
  .ok (e, ← ts.expect .rightBracket "']'")

def predicatesFrom : Nat → Parser (List Expr)
  | 0, ts => .ok ([], ts)
  | rounds + 1, ts =>
    if ts.current? = some .leftBracket then do
      let (e, ts) ← predicate nested ts
      let (es, ts) ← predicatesFrom rounds ts
      .ok (e :: es, ts)
    else .ok ([], ts)

def predicates : Parser (List Expr) := fun ts => predicatesFrom nested ts.ahead.length ts

/-- Arguments behind the first, each after a comma. -/
def argumentsFrom : Nat → Parser (List Expr)
  | 0, ts => .ok ([], ts)
  | rounds + 1, ts =>
    if ts.current? = some .comma then do
      let (e, ts) ← nested (← ts.advance)
      let (es, ts) ← argumentsFrom rounds ts
      .ok (e :: es, ts)
    else .ok ([], ts)

def arguments : Parser (List Expr) := fun ts =>
  if ts.current? = some .rightParen then .ok ([], ts)
  else do
    let (e, ts) ← nested ts
    let (es, ts) ← argumentsFrom nested ts.ahead.length ts
    .ok (e :: es, ts)

/-- A call; the token in front is the name of the function. -/
def functionCall (function : String) : Parser Expr := fun ts => do
  let ts ← (← ts.advance).expect .leftParen "'(' after function name"
  let (args, ts) ← arguments nested ts
  .ok (call function args, ← ts.expect .rightParen "')' after function arguments")

/-! ## Steps and paths -/

/-- The test that a name with a prefix stands for. -/
def prefixedTest (pfx localPart : String) : NodeTest :=
  if pfx = "*" then if localPart = "*" then .any else .anyNamed localPart
  else if localPart = "*" then .anyIn pfx
  else .qualified pfx localPart

/-- The test that a name in front of parentheses stands for. -/
def typeTest (text : String) (target : Option String) : NodeTest :=
  if text = "node" then .node
  else if text = "text" then .text
  else if text = "comment" then .comment
  else if text = "cdata" then .cdata
  else .instruction target

/-- The parentheses of a node test, and the target that only one of the tests can name. -/
def typeTarget (text : String) : Parser (Option String) := fun ts => do
  let ts ← ts.expect .leftParen "'('"
  match ts.current? with
  | some (.string target) =>
    if text = "processing-instruction" then
      .ok (some target, ← (← ts.advance).expect .rightParen "')'")
    else .ok (none, ← ts.expect .rightParen "')'")
  | _ => .ok (none, ← ts.expect .rightParen "')'")

def nodeTest : Parser NodeTest := fun ts =>
  match ts.current? with
  | some .star => do .ok (.any, ← ts.advance)
  | some (.name text) => do .ok (.name text, ← ts.advance)
  | some (.nameTest pfx localPart) => do .ok (prefixedTest pfx localPart, ← ts.advance)
  | some (.nodeType text) => do
    let (target, ts) ← typeTarget text (← ts.advance)
    .ok (typeTest text target, ts)
  | other => ts.fail (.notANodeTest ((other.map TokenKind.shown).getD "Eof"))

/-- The axis of a step that is written in full or with an at sign; children by default. -/
def stepAxis : Parser Axis := fun ts =>
  match ts.current? with
  | some .atSign => do .ok (.attributes, ← ts.advance)
  | some (.axis text) =>
    match Axis.ofName? text with
    | none => .error (.unsupported (.axis text))
    | some axis => do .ok (axis, ← (← ts.advance).expect .doubleColon "'::' after axis name")
  | _ => .ok (.child, ts)

def stepParser : Parser Expr := fun ts =>
  match ts.current? with
  | some .dot => do .ok (step .self .node [], ← ts.advance)
  | some .doubleDot => do .ok (step .parent .node [], ← ts.advance)
  | _ => do
    let (axis, ts) ← stepAxis ts
    let (test, ts) ← nodeTest ts
    let (es, ts) ← predicates nested ts
    .ok (step axis test es, ts)

/-- The step that a double slash stands for. -/
def anyDepth : Expr := step .descendantOrSelf .node []

/-- Steps behind the first, each after one slash or two. -/
def stepsFrom : Nat → Parser (List Expr)
  | 0, ts => .ok ([], ts)
  | rounds + 1, ts =>
    match ts.current? with
    | some .slash => do
      let (e, ts) ← stepParser nested (← ts.advance)
      let (es, ts) ← stepsFrom rounds ts
      .ok (e :: es, ts)
    | some .doubleSlash => do
      let (e, ts) ← stepParser nested (← ts.advance)
      let (es, ts) ← stepsFrom rounds ts
      .ok (anyDepth :: e :: es, ts)
    | _ => .ok ([], ts)

def steps : Parser (List Expr) := fun ts => do
  let (e, ts) ← stepParser nested ts
  let (es, ts) ← stepsFrom nested ts.ahead.length ts
  .ok (e :: es, ts)

/-- Whether the token in front starts a step. A name does unless it is the name of a call. -/
def atStep (ts : Tokens) : Except QueryError Bool :=
  match ts.current? with
  | some (.name _) | some (.nameTest _ _) => do .ok ((← ts.peek) != some .leftParen)
  | some .star | some .atSign | some .dot | some .doubleDot | some (.axis _) | some (.nodeType _) =>
    .ok true
  | _ => .ok false

def primary : Parser Expr := fun ts =>
  match ts.current? with
  | some (.number value) => do .ok (number value, ← ts.advance)
  | some (.string text) => do .ok (string text, ← ts.advance)
  | some (.reference text) => do .ok (reference text, ← ts.advance)
  | some .leftParen => do
    let (e, ts) ← nested (← ts.advance)
    .ok (e, ← ts.expect .rightParen "')'")
  | some (.name text) => functionCall nested text ts
  | some (.nameTest pfx localPart) => functionCall nested (pfx ++ ":" ++ localPart) ts
  | _ => ts.unexpected

def filterParser : Parser Expr := fun ts => do
  let (e, ts) ← primary nested ts
  let (es, ts) ← predicates nested ts
  .ok (if es.isEmpty then e else filter e es, ts)

/-- A path from the document node; the token in front is behind the slash. -/
def absoluteTail : Parser Expr := fun ts => do
  if ← atStep ts then
    let (es, ts) ← steps nested ts
    .ok (absolute es, ts)
  else .ok (absolute [], ts)

/-- A value, or a path that starts from one. -/
def filterPath : Parser Expr := fun ts => do
  let (e, ts) ← filterParser nested ts
  match ts.current? with
  | some .slash =>
    let (es, ts) ← steps nested (← ts.advance)
    .ok (relative (e :: es), ts)
  | some .doubleSlash =>
    let (es, ts) ← steps nested (← ts.advance)
    .ok (relative (e :: anyDepth :: es), ts)
  | _ => .ok (e, ts)

def path : Parser Expr := fun ts =>
  match ts.current? with
  | some .slash => do absoluteTail nested (← ts.advance)
  | some .doubleSlash => do
    let (es, ts) ← steps nested (← ts.advance)
    .ok (absolute (anyDepth :: es), ts)
  | _ => do
    if ← atStep ts then
      let (es, ts) ← steps nested ts
      .ok (relative es, ts)
    else filterPath nested ts

/-! ## Whole expressions -/

/-- All levels over a given parser for what stands between brackets. -/
def levels : Parser Expr :=
  chain orJoin? <| chain andJoin? <| chain equalityJoin? <| chain orderJoin? <| chain sumJoin? <|
    chain productJoin? <| negation <| chain unionJoin? <| path nested

end

/-- Expressions with brackets nested at most so deep. -/
def parseNested : Nat → Parser Expr
  | 0, ts => ts.unexpected
  | depth + 1, ts => levels (parseNested depth) ts

/-- Reads a whole text as an expression. -/
def parse (text : String) : Except QueryError Expr := do
  let ts ← (Tokens.ofText text).checked
  let (e, ts) ← parseNested (ts.ahead.length + 1) ts
  if ts.current?.isNone then .ok e else ts.unexpected

end TreeQuery.Expr
