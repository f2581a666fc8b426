import TreeQuery.Error
import TreeQuery.Text.Quoted

/-!
Tokens of selectors. White space is a token of its own, since it can stand for a combinator.
-/
namespace TreeQuery.Selector

open TreeQuery.Text (Place)

inductive TokenKind where
  | ident (text : String)
  /-- A name behind a number sign. -/
  | hash (text : String)
  | string (text : String)
  /-- A name in front of a parenthesis, which belongs to the token. -/
  | function (text : String)
  /-- What stands between the parentheses of a series of positions. -/
  | raw (text : String)
  | dot | star | pipe | colon | comma | greater | plus | tilde
  | leftBracket | rightBracket | rightParen
  | eq | includes | dashMatch | prefixMatch | suffixMatch | substring
  | whitespace
  | eof
deriving DecidableEq, Repr

/-- A token and the place of its first character. -/
structure Token where
  kind : TokenKind
  place : Place
deriving DecidableEq, Repr

namespace TokenKind

/-- The name of the kind of token. -/
def label : TokenKind → String
  | ident _ => "Ident"
  | hash _ => "Hash"
  | string _ => "String"
  | function _ => "Function"
  | raw _ => "Raw"
  | dot => "Dot"
  | star => "Star"
  | pipe => "Pipe"
  | colon => "Colon"
  | comma => "Comma"
  | greater => "Greater"
  | plus => "Plus"
  | tilde => "Tilde"
  | leftBracket => "LeftBracket"
  | rightBracket => "RightBracket"
  | rightParen => "RightParen"
  | eq => "Eq"
  | includes => "Includes"
  | dashMatch => "DashMatch"
  | prefixMatch => "PrefixMatch"
  | suffixMatch => "SuffixMatch"
  | substring => "Substring"
  | whitespace => "Whitespace"
  | eof => "Eof"

/-- The text that a token carries. -/
def text? : TokenKind → Option String
  | ident text | hash text | string text | function text | raw text => some text
  | _ => none

/-- A token as messages show it: its label, and its text in parentheses. -/
def shown (kind : TokenKind) : String :=
  match kind.text? with
  | none => kind.label
  | some text => kind.label ++ "(" ++ Text.quoted text ++ ")"

end TokenKind

end TreeQuery.Selector
