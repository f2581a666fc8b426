import TreeQuery.Selector.Token
import TreeQuery.Text.Blank
import TreeQuery.Text.Letter

/-!
Cutting the text of a selector into tokens. What stands between the parentheses of a function whose
name starts with `nth-` is one raw token, without the blanks around it.
-/
namespace TreeQuery.Selector

open TreeQuery.Text (Place isBlank isAlphanumeric trim)

/-- Characters of names. Digits may stand anywhere, and everything beyond ASCII is a letter. -/
def isIdentChar (c : Char) : Bool :=
  isAlphanumeric c || c == '-' || c == '_' || 128 ≤ c.toNat

/-- The name at the head of a text. -/
def identAt (cs : List Char) : List Char := cs.takeWhile isIdentChar

/-- Tokens of one character that never take an equals sign with them. -/
def singles : List (Char × TokenKind) :=
  [('.', .dot), (':', .colon), (',', .comma), ('>', .greater), ('+', .plus), ('[', .leftBracket),
    (']', .rightBracket), (')', .rightParen), ('=', .eq)]

/-- Comparisons that end in an equals sign, and what their first character is alone. -/
def comparisons : List (Char × TokenKind × Option TokenKind) :=
  [('*', .substring, some .star), ('|', .dashMatch, some .pipe), ('~', .includes, some .tilde),
    ('^', .prefixMatch, none), ('$', .suffixMatch, none)]

/-- Whether what follows a function is read as it stands. -/
def takesRaw (kind : TokenKind) : Bool :=
  match kind with
  | .function text => "nth-".isPrefixOf text
  | _ => false

def startsEq : List Char → Bool
  | '=' :: _ => true
  | _ => false

/-- A name, or a function when a parenthesis follows. -/
def wordAt (cs : List Char) : TokenKind × Nat :=
  let name := identAt cs
  match cs.drop name.length with
  | '(' :: _ => (.function (String.ofList name), name.length + 1)
  | _ => (.ident (String.ofList name), name.length)

/-- The string literal behind its opening quote, with both quotes in its width. -/
def stringAt (quote : Char) (cs : List Char) : Except Fault (TokenKind × Nat) :=
  let text := cs.takeWhile (· != quote)
  if text.length < cs.length then .ok (.string (String.ofList text), text.length + 2)
  else .error .unterminatedString

/-- The name behind a number sign. -/
def hashAt (cs : List Char) : Except Fault (TokenKind × Nat) :=
  let name := identAt cs
  if name.isEmpty then .error (.expected "name after '#'")
  else .ok (.hash (String.ofList name), name.length + 1)

/-- The token at the head of a text, and its width. -/
def lexeme (c : Char) (cs : List Char) : Except Fault (TokenKind × Nat) :=
  if isBlank c then .ok (.whitespace, ((c :: cs).takeWhile isBlank).length)
  else
    match singles.lookup c, comparisons.lookup c with
    | some kind, _ => .ok (kind, 1)
    | none, some (comparison, alone?) =>
      if startsEq cs then .ok (comparison, 2)
      else
        match alone? with
        | some alone => .ok (alone, 1)
        | none => .error (.unexpectedCharacter c)
    | none, none =>
      if c == '#' then hashAt cs
      else if c == '\"' || c == '\x27' then stringAt c cs
      else if isIdentChar c then .ok (wordAt (c :: cs))
      else .error (.unexpectedCharacter c)

/-- The raw token at the head of a text, and its width. -/
def rawAt (cs : List Char) : TokenKind × Nat :=
  let text := cs.takeWhile (· != ')')
  (.raw (String.ofList (trim isBlank text)), text.length)

/-- The tokens of a text from a place on, with the end as the last one. Of two rounds one at least
takes a character, since only a raw token can be empty and none follows another. -/
def scan : Nat → Bool → Place → List Char → Except QueryError (List Token)
  | 0, _, place, _ => .ok [⟨.eof, place⟩]
  | rounds + 1, true, place, cs => do
    let (kind, width) := rawAt cs
    let rest ← scan rounds false (place.after (cs.take width)) (cs.drop width)
    .ok (⟨kind, place⟩ :: rest)
  | _, false, place, [] => .ok [⟨.eof, place⟩]
  | rounds + 1, false, place, c :: cs =>
    match lexeme c cs with
    | .error fault => .error (.parse fault place)
    | .ok (kind, width) => do
      let rest ← scan rounds (takesRaw kind) (place.after ((c :: cs).take width))
        ((c :: cs).drop width)
      .ok (⟨kind, place⟩ :: rest)

/-- All tokens of a text, the last one its end. -/
def tokenize (text : String) : Except QueryError (List Token) :=
  let cs := text.toList
  scan (2 * cs.length + 1) false .start cs

end TreeQuery.Selector
