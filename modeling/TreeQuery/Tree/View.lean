import TreeQuery.Tree.Node

/-!
Read-only views of a tree. A view answers questions about single nodes; paths, names, texts and
document order are worked out from the answers. A view with fewer answers of its own (`minimal`)
finds children by following links and shows no namespace bindings.
-/
namespace TreeQuery

structure View where
  /-- More than the length of any chain of links. -/
  size : Nat
  kind : NodeId → NodeKind
  /-- The parent; the owner of an attribute or a binding. -/
  parent? : NodeId → Option NodeId
  firstChild? : NodeId → Option NodeId
  nextSibling? : NodeId → Option NodeId
  prevSibling? : NodeId → Option NodeId
  attributes : NodeId → List NodeId
  bindings : NodeId → List NodeId
  localName? : NodeId → Option String
  pfx? : NodeId → Option String
  uri? : NodeId → Option String
  value? : NodeId → Option String
  children : NodeId → List NodeId

namespace View

/-- The nodes met by following links from one on, at most so many. -/
def chain (next? : NodeId → Option NodeId) : Nat → Option NodeId → List NodeId
  | 0, _ => []
  | _, none => []
  | n + 1, some id => id :: chain next? n (next? id)

variable (v : View)

/-- The node that stands for the whole document. -/
def documentNode : NodeId := 0

/-- The children of a node, found by following links. -/
def linkedChildren (id : NodeId) : List NodeId := chain v.nextSibling? v.size (v.firstChild? id)

/-- The same tree through the links alone. -/
def minimal : View := { v with bindings := fun _ => [], children := v.linkedChildren }

/-- The nodes below a node, each before its own children, in front of a given list. Nothing is
deeper than the given depth. -/
def below : Nat → NodeId → List NodeId → List NodeId
  | 0, _, rest => rest
  | depth + 1, id, rest =>
    (v.children id).foldr (fun child rest => child :: below depth child rest) rest

/-- The nodes below a node in document order. -/
def descendants (id : NodeId) : List NodeId := v.below v.size id []

/-- The chain of parents, nearest first. -/
def ancestors (id : NodeId) : List NodeId := chain v.parent? v.size (v.parent? id)

/-- Whether a node is an attribute or a binding. -/
def isOwned (id : NodeId) : Bool := (v.kind id).isOwned

/-- The name with its prefix. -/
def name? (id : NodeId) : Option String :=
  (v.localName? id).map fun localName =>
    match v.pfx? id with
    | none => localName
    | some pfx => if pfx = "" then localName else pfx ++ ":" ++ localName

/-- The value of the first attribute of a given name, prefix included. -/
def attribute? (id : NodeId) (name : String) : Option String :=
  ((v.attributes id).find? fun attr => v.name? attr == some name).bind v.value?

/-- The text of a node: for a document or an element all text below it, in document order. -/
def stringValue (id : NodeId) : String :=
  match v.kind id with
  | .document | .element =>
    String.join (((v.descendants id).filter fun d => (v.kind d).isText).map
      fun d => (v.value? d).getD "")
  | _ => (v.value? id).getD ""

end View

/-- Nodes in document order, each once. -/
def documentOrder (nodes : List NodeId) : List NodeId :=
  (nodes.mergeSort (fun a b => decide (a ≤ b))).eraseReps

end TreeQuery
