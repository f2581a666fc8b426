import TreeQuery.Expr.Token
import TreeQuery.Text.Letter

/-!
Cutting the text of an expression into tokens. `lexeme` reads the token at the head of a text and
says how many characters it takes; `Tokens.ofText` reads them all, with their places, up to the end
of the text or to the first character that starts no token.
-/
namespace TreeQuery.Expr

open TreeQuery.Text (Place isBlank isAlphabetic isAlphanumeric)

/-! ## Names and numbers -/

def isNameStart (c : Char) : Bool := isAlphabetic c || c == '_'

def isNameChar (c : Char) : Bool := isAlphanumeric c || c == '_' || c == '-' || c == '.'

/-- The name at the head of a text. -/
def nameAt (cs : List Char) : List Char := cs.takeWhile isNameChar

def startsName : List Char → Bool
  | c :: _ => isNameStart c
  | [] => false

def startsDigit : List Char → Bool
  | c :: _ => c.isDigit
  | [] => false

/-- The digits behind a decimal point, when the text goes on with one. Two points in a row are a
token of their own. -/
def fractionAt? : List Char → Option (List Char)
  | '.' :: '.' :: _ => none
  | '.' :: cs => some (cs.takeWhile Char.isDigit)
  | _ => none

def numberAt (cs : List Char) : TokenKind × Nat :=
  let whole := cs.takeWhile Char.isDigit
  match fractionAt? (cs.dropWhile Char.isDigit) with
  | some fraction =>
    (.number (Number.ofDigits whole fraction), whole.length + 1 + fraction.length)
  | none => (.number (Number.ofDigits whole []), whole.length)

/-- The string literal behind its opening quote, with both quotes in its width. -/
def stringAt (quote : Char) (cs : List Char) : Except Fault (TokenKind × Nat) :=
  let text := cs.takeWhile (· != quote)
  if text.length < cs.length then .ok (.string (String.ofList text), text.length + 2)
  else .error .unterminatedString

/-- Names that are operators where one can stand. -/
def operatorNames : List (String × TokenKind) :=
  [("and", .and), ("or", .or), ("mod", .mod), ("div", .div)]

/-- Names of node tests that are written with parentheses. -/
def nodeTypeNames : List String := ["node", "text", "comment", "cdata", "processing-instruction"]

/-- The name of a test with a prefix, or what follows the colon behind a name. -/
def localPartAt? : List Char → Option (List Char)
  | ':' :: '*' :: _ => some ['*']
  | ':' :: cs => if startsName cs then some (nameAt cs) else none
  | _ => none

/-- What a name without prefix is: an axis or a node test when its punctuation follows, blanks
left aside. -/
def wordKind (text : String) (after : List Char) : TokenKind :=
  match after.dropWhile isBlank with
  | ':' :: ':' :: _ => .axis text
  | '(' :: _ => if nodeTypeNames.contains text then .nodeType text else .name text
  | _ => .name text

def wordAt (operatorAllowed : Bool) (cs : List Char) : TokenKind × Nat :=
  let name := nameAt cs
  let text := String.ofList name
  let after := cs.drop name.length
  let operator := if operatorAllowed then operatorNames.lookup text else none
  match operator, localPartAt? after with
  | some kind, _ => (kind, name.length)
  | none, some localPart =>
    (.nameTest text (String.ofList localPart), name.length + 1 + localPart.length)
  | none, none => (wordKind text after, name.length)

/-! ## Symbols -/

/-- Tokens of two characters. -/
def pairs : List ((Char × Char) × TokenKind) :=
  [(('/', '/'), .doubleSlash), (('.', '.'), .doubleDot), (('!', '='), .notEq), (('<', '='), .ltEq),
    (('>', '='), .gtEq), ((':', ':'), .doubleColon)]

/-- Tokens of one character. -/
def singles : List (Char × TokenKind) :=
  [('/', .slash), ('.', .dot), ('@', .atSign), ('|', .pipe), ('+', .plus), ('-', .minus),
    ('=', .eq), ('<', .lt), ('>', .gt), ('(', .leftParen), (')', .rightParen),
    ('[', .leftBracket), (']', .rightBracket), (',', .comma)]

def pairAt? (c : Char) : List Char → Option TokenKind
  | d :: _ => pairs.lookup (c, d)
  | [] => none

/-- A star, or a test of any prefix where a test can stand and a colon and a name follow. -/
def starAt (operatorAllowed : Bool) (cs : List Char) : TokenKind × Nat :=
  match operatorAllowed, localPartAt? cs with
  | false, some localPart => (.nameTest "*" (String.ofList localPart), 2 + localPart.length)
  | _, _ => (.star, 1)

/-- The token at the head of a text that starts with no blank, and its width. -/
def lexeme (operatorAllowed : Bool) (c : Char) (cs : List Char) : Except Fault (TokenKind × Nat) :=
  match pairAt? c cs with
  | some kind => .ok (kind, 2)
  | none =>
    if c == '.' && startsDigit cs || c.isDigit then .ok (numberAt (c :: cs))
    else
      match singles.lookup c with
      | some kind => .ok (kind, 1)
      | none =>
        if c == '*' then .ok (starAt operatorAllowed cs)
        else if c == '$' then
          if startsName cs then
            .ok (.reference (String.ofList (nameAt cs)), 1 + (nameAt cs).length)
          else .error (.expected "variable name after '$'")
        else if c == '\"' || c == '\x27' then stringAt c cs
        else if isNameStart c then .ok (wordAt operatorAllowed (c :: cs))
        else .error (.unexpectedCharacter c)

/-! ## All tokens of a text -/

/-- The tokens that are left to read, and how they end: at a place, or with an error. -/
@[ext] structure Tokens where
  ahead : List Token
  stop : Except QueryError Place

namespace Tokens

/-- Puts a token in front. -/
def push (token : Token) (ts : Tokens) : Tokens := { ts with ahead := token :: ts.ahead }

/-- The tokens of a text from a place on. Every token takes a character at least, so as many rounds
as there are characters are enough. -/
def scan : Nat → Bool → Place → List Char → Tokens
  | rounds, operatorAllowed, place, cs =>
    let blanks := cs.takeWhile isBlank
    let place := place.after blanks
    match rounds, cs.drop blanks.length with
    | _, [] => ⟨[], .ok place⟩
    | 0, c :: _ => ⟨[], .error (.parse (.unexpectedCharacter c) place)⟩
    | rounds + 1, c :: cs =>
      match lexeme operatorAllowed c cs with
      | .error fault => ⟨[], .error (.parse fault place)⟩
      | .ok (kind, width) =>
        (scan rounds (kind.allowsOperator operatorAllowed) (place.after ((c :: cs).take width))
          ((c :: cs).drop width)).push ⟨kind, place⟩

def ofText (text : String) : Tokens :=
  let cs := text.toList
  scan cs.length false .start cs

/-- All tokens, or the error that stops the reading. -/
def toList (ts : Tokens) : Except QueryError (List Token) := ts.stop.map fun _ => ts.ahead

end Tokens

end TreeQuery.Expr
