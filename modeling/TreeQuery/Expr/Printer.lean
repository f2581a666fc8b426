import TreeQuery.Expr.Basic
import TreeQuery.Number.Text

/-!
Expressions as text: in full, without abbreviations, and with parentheses around every operation.
-/
namespace TreeQuery.Expr

/-- A string literal, between double quotes unless it holds one. -/
def literal (text : String) : String :=
  if text.toList.contains '\"' then "'" ++ text ++ "'" else "\"" ++ text ++ "\""

mutual

def render : Expr → String
  | absolute parts => "/" ++ renderJoined "/" parts
  | relative parts => renderJoined "/" parts
  | step axis test predicates => axis.name ++ "::" ++ test.render ++ renderPredicates predicates
  | filter primary predicates => "(" ++ primary.render ++ ")" ++ renderPredicates predicates
  | binary op left right => "(" ++ left.render ++ " " ++ op.sign ++ " " ++ right.render ++ ")"
  | union left right => "(" ++ left.render ++ " | " ++ right.render ++ ")"
  | negate operand => "-(" ++ operand.render ++ ")"
  | string text => literal text
  | number value => value.render
  | call function args => function ++ "(" ++ renderJoined ", " args ++ ")"
  | reference name => "$" ++ name

def renderJoined (separator : String) : List Expr → String
  | [] => ""
  | [e] => e.render
  | e :: es => e.render ++ separator ++ renderJoined separator es

def renderPredicates : List Expr → String
  | [] => ""
  | e :: es => "[" ++ e.render ++ "]" ++ renderPredicates es

end

end TreeQuery.Expr
