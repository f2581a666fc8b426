import TreeQuery.Tree.View

/-!
Documents: nodes in one row, numbered in document order. The bindings and then the attributes of
an element stand right behind it. A number behind the last node is answered like a document node
without parent, children or texts.
-/
namespace TreeQuery

structure Document where
  nodes : Array Node
  /-- The first element that is a child of the document node. -/
  rootElement : Option NodeId

namespace Document

variable (d : Document)

def node? (id : NodeId) : Option Node := d.nodes[id]?

def content? (id : NodeId) : Option Content := (d.node? id).map (·.content)

def size : Nat := d.nodes.size

def kind (id : NodeId) : NodeKind := ((d.content? id).map Content.kind).getD .document

/-- The bindings of an element: so many numbers behind its own. -/
def bindings (id : NodeId) : List NodeId :=
  match d.content? id with
  | some (.element _ bindings _) => List.range' (id + 1) bindings
  | _ => []

/-- The attributes of an element: so many numbers behind its bindings. -/
def attributes (id : NodeId) : List NodeId :=
  match d.content? id with
  | some (.element _ bindings attrs) => List.range' (id + 1 + bindings) attrs
  | _ => []

def firstChild? (id : NodeId) : Option NodeId := (d.node? id).bind (·.firstChild)

def nextSibling? (id : NodeId) : Option NodeId := (d.node? id).bind (·.nextSibling)

/-- The children of a node. -/
def children (id : NodeId) : List NodeId :=
  View.chain d.nextSibling? d.size (d.firstChild? id)

/-- The document as queries see it. -/
def view : View where
  size := d.size
  kind := d.kind
  parent? id := (d.node? id).bind (·.parent)
  firstChild? := d.firstChild?
  nextSibling? := d.nextSibling?
  prevSibling? id := (d.node? id).bind (·.prevSibling)
  attributes := d.attributes
  bindings := d.bindings
  localName? id := (d.content? id).bind Content.localName?
  pfx? id := (d.content? id).bind Content.pfx?
  uri? id := (d.content? id).bind Content.uri?
  value? id := (d.content? id).bind Content.value?
  children := d.children

end Document

end TreeQuery
