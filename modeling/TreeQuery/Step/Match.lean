import TreeQuery.Expr.Axis
import TreeQuery.Expr.NodeTest
import TreeQuery.Tree.View

/-!
Node tests made ready for one axis. A test by name asks for the kind of node that the axis leads to
in the first place: attributes, namespace bindings, or elements.
-/
namespace TreeQuery

/-- The kind of node that names on an axis stand for. -/
def Axis.principal : Axis → NodeKind
  | .attributes => .attr
  | .namespaces => .binding
  | _ => .element

/-- A node test that knows the kind of node its names stand for. -/
inductive ReadyTest where
  | any (principal : NodeKind)
  | name (principal : NodeKind) (localPart : String)
  | qualified (principal : NodeKind) (pfx localPart : String)
  | anyIn (principal : NodeKind) (pfx : String)
  | anyNamed (principal : NodeKind) (localPart : String)
  | node
  | text
  | comment
  | cdata
  | instruction (target : Option String)
deriving DecidableEq, Repr

/-- Makes a test ready for an axis. -/
def NodeTest.ready (test : NodeTest) (axis : Axis) : ReadyTest :=
  match test with
  | any => .any axis.principal
  | name localPart => .name axis.principal localPart
  | qualified pfx localPart => .qualified axis.principal pfx localPart
  | anyIn pfx => .anyIn axis.principal pfx
  | anyNamed localPart => .anyNamed axis.principal localPart
  | node => .node
  | text => .text
  | comment => .comment
  | cdata => .cdata
  | instruction target => .instruction target

namespace ReadyTest

/-- Whether a node has the prefix of a test. With aliases the URIs are compared, and a prefix
without one fits nothing; with none at all, the prefixes as written. -/
def prefixFits (v : View) (aliases : List (String × String)) (pfx : String) (id : NodeId) : Bool :=
  if aliases.isEmpty then v.pfx? id == some pfx
  else
    match aliases.lookup pfx with
    | some uri => v.uri? id == some uri
    | none => false

/-- Whether a node passes the test. A name without prefix fits nodes written without one. -/
def fits (v : View) (aliases : List (String × String)) (test : ReadyTest) (id : NodeId) : Bool :=
  match test with
  | any principal => v.kind id == principal
  | name principal localPart =>
    v.kind id == principal && (v.pfx? id).isNone && v.localName? id == some localPart
  | qualified principal pfx localPart =>
    v.kind id == principal && v.localName? id == some localPart && prefixFits v aliases pfx id
  | anyIn principal pfx => v.kind id == principal && prefixFits v aliases pfx id
  | anyNamed principal localPart => v.kind id == principal && v.localName? id == some localPart
  | node => true
  | text => (v.kind id).isText
  | comment => v.kind id == .comment
  | cdata => v.kind id == .cdata
  | instruction none => v.kind id == .instruction
  | instruction (some target) => v.kind id == .instruction && v.localName? id == some target

end ReadyTest

end TreeQuery
