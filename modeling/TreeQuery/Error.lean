import TreeQuery.Function.Basic
import TreeQuery.Text.Place
import TreeQuery.Value.Kind

/-!
Why a query fails. Every failure is one of five causes; `message` is the only place that words
them. A text that is not a number and an empty node-set are no failures: they have values.
-/
namespace TreeQuery

open TreeQuery.Text (Place)

/-- What is wrong with a text at some place of it. -/
inductive Fault where
  | unterminatedString
  | unexpectedCharacter (c : Char)
  | unexpectedEnd (whole : String)
  | unexpectedToken (shown : String)
  | expected (what : String)
  | notANodeTest (shown : String)
  | invalidNth (text : String)
deriving DecidableEq, Repr

def Fault.message : Fault → String
  | .unterminatedString => "unterminated string literal"
  | .unexpectedCharacter c => s!"unexpected character '{c}'"
  | .unexpectedEnd whole => s!"unexpected end of {whole}"
  | .unexpectedToken shown => s!"unexpected token {shown}"
  | .expected what => s!"expected {what}"
  | .notANodeTest shown => s!"expected node test, got {shown}"
  | .invalidNth text => s!"invalid nth expression '{text}'"

/-- What the languages have and the engine has not. -/
inductive Feature where
  | axis (name : String)
  | function (name : String)
  | partAsStep
  | combinator (sign : Char)
  | pseudoClass (name : String)
  | pseudoFunction (name : String)
  | pseudoElements
deriving DecidableEq, Repr

def Feature.describe : Feature → String
  | .axis name => s!"axis {name}"
  | .function name => s!"function {name}()"
  | .partAsStep => "expression as location step"
  | .combinator sign => s!"combinator '{sign}'"
  | .pseudoClass name => s!"pseudo-class :{name}"
  | .pseudoFunction name => s!"pseudo-class :{name}()"
  | .pseudoElements => "pseudo-elements"

/-- Why a query fails. -/
inductive QueryError where
  /-- The text breaks the grammar at a place. -/
  | parse (fault : Fault) (place : Place)
  | unboundVariable (name : String)
  | unsupported (feature : Feature)
  /-- A value of another kind stands where a node-set is needed. -/
  | notANodeSet (found : ValueKind)
  | argumentCount (function : Function) (given : Nat)
deriving DecidableEq, Repr

def QueryError.message : QueryError → String
  | .parse fault place =>
    s!"parse error at {place.line}:{place.column}: " ++ fault.message
  | .unboundVariable name => "unbound variable: $" ++ name
  | .unsupported feature => "unsupported feature: " ++ feature.describe
  | .notANodeSet found => "type error: expected node-set, found " ++ found.name
  | .argumentCount function given =>
    "invalid arguments to " ++ function.title ++ "(): expected " ++ function.arity.describe ++
      s!" argument(s), got {given}"

end TreeQuery
