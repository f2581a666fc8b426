import TreeQuery.Error
import TreeQuery.Number.Text
import TreeQuery.Text.Quoted

/-!
Tokens of expressions. A star is one token whether it multiplies or stands for any name; the
parser tells the two apart. Words such as `and` are operators only where one can stand.
-/
namespace TreeQuery.Expr

open TreeQuery.Text (Place)

inductive TokenKind where
  | slash | doubleSlash | dot | doubleDot | atSign | pipe | plus | minus | star
  | eq | notEq | lt | ltEq | gt | gtEq | and | or | mod | div
  | leftParen | rightParen | leftBracket | rightBracket
  | number (value : Number)
  | string (text : String)
  /-- A name, also of a function. -/
  | name (text : String)
  /-- A name with a prefix; a star stands for any name or prefix. -/
  | nameTest (pfx localPart : String)
  /-- The name of a node test that is written with parentheses. -/
  | nodeType (text : String)
  /-- A name in front of a double colon. -/
  | axis (text : String)
  | reference (text : String)
  | doubleColon
  | comma
deriving DecidableEq

/-- A token and the place of its first character. -/
structure Token where
  kind : TokenKind
  place : Place
deriving DecidableEq

namespace TokenKind

/-- The name of the kind of token. -/
def label : TokenKind → String
  | slash => "Slash"
  | doubleSlash => "DoubleSlash"
  | dot => "Dot"
  | doubleDot => "DoubleDot"
  | atSign => "At"
  | pipe => "Pipe"
  | plus => "Plus"
  | minus => "Minus"
  | star => "Star"
  | eq => "Eq"
  | notEq => "NotEq"
  | lt => "Lt"
  | ltEq => "LtEq"
  | gt => "Gt"
  | gtEq => "GtEq"
  | and => "And"
  | or => "Or"
  | mod => "Mod"
  | div => "Div"
  | leftParen => "LeftParen"
  | rightParen => "RightParen"
  | leftBracket => "LeftBracket"
  | rightBracket => "RightBracket"
  | number _ => "Number"
  | string _ => "String"
  | name _ => "Name"
  | nameTest _ _ => "NameTest"
  | nodeType _ => "NodeType"
  | axis _ => "Axis"
  | reference _ => "Variable"
  | doubleColon => "DoubleColon"
  | comma => "Comma"

/-- The texts that a token carries. -/
def texts : TokenKind → List String
  | string text | name text | nodeType text | axis text | reference text => [text]
  | nameTest pfx localPart => [pfx, localPart]
  | _ => []

/-- A token as messages show it: its label, and what it carries in parentheses. -/
def shown (kind : TokenKind) : String :=
  match kind with
  | number value => kind.label ++ "(" ++ value.literal ++ ")"
  | _ =>
    match kind.texts with
    | [] => kind.label
    | texts => kind.label ++ "(" ++ ", ".intercalate (texts.map Text.quoted) ++ ")"

/-- Tokens behind which an operand must come. -/
def awaitsOperand : TokenKind → Bool
  | atSign | doubleColon | leftParen | leftBracket | comma | slash | doubleSlash | pipe | plus
  | minus | star | eq | notEq | lt | ltEq | gt | gtEq | and | or | mod | div | axis _ => true
  | _ => false

/-- Whether an operator may come next. Behind a star it may when the star itself is an operand,
that is, when no operator could stand in its place. -/
def allowsOperator (allowedBefore : Bool) (kind : TokenKind) : Bool :=
  !kind.awaitsOperand || (kind == star && !allowedBefore)

end TokenKind

end TreeQuery.Expr
