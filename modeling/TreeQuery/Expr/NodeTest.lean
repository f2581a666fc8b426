/-!
Node tests: what a location step asks of a node besides standing on its axis.
-/
namespace TreeQuery

inductive NodeTest where
  /-- Any node of the kind the axis leads to. -/
  | any
  /-- A name without prefix. -/
  | name (localPart : String)
  | qualified (pfx localPart : String)
  /-- Any name with a prefix. -/
  | anyIn (pfx : String)
  /-- A local name with any prefix or none. -/
  | anyNamed (localPart : String)
  | node
  | text
  | comment
  | cdata
  | instruction (target : Option String)
deriving DecidableEq, Repr

namespace NodeTest

/-- The test as it is written. -/
def render : NodeTest → String
  | any => "*"
  | name localPart => localPart
  | qualified pfx localPart => pfx ++ ":" ++ localPart
  | anyIn pfx => pfx ++ ":*"
  | anyNamed localPart => "*:" ++ localPart
  | node => "node()"
  | text => "text()"
  | comment => "comment()"
  | cdata => "cdata()"
  | instruction none => "processing-instruction()"
  | instruction (some target) => "processing-instruction('" ++ target ++ "')"

end NodeTest

end TreeQuery
