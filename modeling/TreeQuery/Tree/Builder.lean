import TreeQuery.Tree.Document
import TreeQuery.Tree.Scope

/-!
Documents from events. Start and end events open and close elements; every other event adds one
node to the innermost open element. An end without an open element is passed over, and elements
that are left open are closed at the end.
-/
namespace TreeQuery

/-- Attributes as they are written, in order: name and value. -/
abbrev WrittenAttrs := List (String × String)

inductive Event where
  | start (name : String) (attrs : WrittenAttrs)
  | close
  /-- An element that closes at once. -/
  | empty (name : String) (attrs : WrittenAttrs)
  | text (value : String)
  | cdata (value : String)
  | comment (value : String)
  | doctype (value : String)
  | declaration (value : String)
  | instruction (target value : String)
deriving DecidableEq, Repr

structure Builder where
  nodes : Array Node
  scope : Scope
  /-- The open elements, innermost first. -/
  openElements : List NodeId
  rootElement : Option NodeId

namespace Builder

def initial : Builder :=
  { nodes := #[{ content := .document, parent := none, depth := 0 }]
    scope := .initial
    openElements := []
    rootElement := none }

/-- The largest number that one element counts bindings or attributes up to, and the largest depth
of an element. -/
abbrev wordMax : Nat := 65535

variable (b : Builder)

/-- The node that the next node becomes a child of. -/
def parent : NodeId := b.openElements.headD View.documentNode

/-- The depth of the next node: one more than that of its parent, but it stays at the largest
word. -/
def depth : UInt16 :=
  UInt16.ofNat (min ((b.nodes[b.parent]?).elim 0 (·.depth.toNat) + 1) wordMax)

/-- The prefix that an attribute declares, when it is a declaration. -/
def declared? (name : String) : Option String :=
  if name = "xmlns" then some ""
  else if "xmlns:".isPrefixOf name then some (name.drop 6).toString
  else none

/-- The scope inside an element with the given attributes. -/
def innerScope (scope : Scope) (attrs : WrittenAttrs) : Scope :=
  attrs.foldl
    (fun scope (name, value) =>
      match declared? name with
      | some pfx => scope.declare pfx value
      | none => scope)
    scope.push

/-- The name of an element; without a prefix it is in the default namespace. -/
def elementName (scope : Scope) (written : String) : QName :=
  let (pfx, localPart) := QName.split written
  ⟨pfx, localPart, (scope.resolve? pfx).getD ""⟩

/-- The name of an attribute; without a prefix it is in no namespace. -/
def attrName (scope : Scope) (written : String) : QName :=
  let (pfx, localPart) := QName.split written
  ⟨pfx, localPart, if pfx = "" then "" else (scope.resolve? pfx).getD ""⟩

/-- Puts a node behind all others as the last child of its parent. -/
def addChild (content : Content) : Builder :=
  let parent := b.parent
  let depth := b.depth
  let ⟨nodes, scope, openElements, rootElement⟩ := b
  let id := nodes.size
  let last := (nodes[parent]?).bind (·.lastChild)
  let nodes := nodes.modify parent fun p =>
    { p with firstChild := p.firstChild.or (some id), lastChild := some id }
  let nodes :=
    match last with
    | some sibling => nodes.modify sibling fun n => { n with nextSibling := some id }
    | none => nodes
  let nodes := nodes.push { content, parent := some parent, prevSibling := last, depth }
  ⟨nodes, scope, openElements, rootElement⟩

/-- Puts nodes behind all others that belong to an element without being its children. -/
def addOwned (owner : NodeId) (depth : UInt16) (contents : List Content) : Builder :=
  { b with
    nodes := contents.foldl
      (fun nodes content => nodes.push { content, parent := some owner, depth }) b.nodes }

/-- Opens an element: the node itself, its bindings and its attributes. -/
def openElement (name : String) (attrs : WrittenAttrs) : NodeId × Builder :=
  let id := b.nodes.size
  let depth := b.depth
  let openElements := b.openElements
  let rootElement :=
    b.rootElement.or (if b.parent = View.documentNode then some id else none)
  let scope := innerScope b.scope attrs
  let bindings := scope.bindings.take wordMax
  let attrs := (attrs.filter fun (name, _) => (declared? name).isNone).take wordMax
  let built := b.addChild (.element (elementName scope name) bindings.length attrs.length)
  let built := built.addOwned id (depth + 1)
    (bindings.map (fun (pfx, uri) => .binding pfx uri) ++
      attrs.map (fun (name, value) => .attr (attrName scope name) value))
  (id, { built with scope, openElements := id :: openElements, rootElement })

/-- Closes the innermost open element, when there is one. -/
def closeElement : Builder :=
  match b.openElements with
  | [] => b
  | _ :: outer => { b with openElements := outer, scope := b.scope.pop }

/-- Adds a node without children. -/
def addLeaf (content : Content) : Option NodeId × Builder := (some b.nodes.size, b.addChild content)

/-- Takes in one event, and gives the number of the node that it adds. -/
def feed : Event → Option NodeId × Builder
  | .start name attrs =>
    let (id, b) := b.openElement name attrs
    (some id, b)
  | .close => (none, b.closeElement)
  | .empty name attrs =>
    let (id, b) := b.openElement name attrs
    (some id, b.closeElement)
  | .text value => b.addLeaf (.text value)
  | .cdata value => b.addLeaf (.cdata value)
  | .comment value => b.addLeaf (.comment value)
  | .doctype value => b.addLeaf (.doctype value)
  | .declaration value => b.addLeaf (.declaration value)
  | .instruction target value => b.addLeaf (.instruction target value)

/-- Takes in all events, and gives what each of them adds. -/
def feedAll (b : Builder) : List Event → List (Option NodeId) × Builder
  | [] => ([], b)
  | event :: events =>
    let (id, b) := b.feed event
    let (ids, b) := feedAll b events
    (id :: ids, b)

/-- The document; elements that are still open end here. -/
def finish : Document := ⟨b.nodes, b.rootElement⟩

end Builder

/-- The document that events describe. -/
def Document.ofEvents (events : List Event) : Document := (Builder.initial.feedAll events).2.finish

end TreeQuery
