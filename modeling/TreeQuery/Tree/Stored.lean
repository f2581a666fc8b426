import TreeQuery.Tree.Builder
import TreeQuery.Tree.StringPool

/-!
Documents as they are kept. All names, URIs and texts lie in one pool of strings, nodes hold their
numbers, and while events are taken in, prefixes are told apart by number alone. What a document
shows is what is read from its pool.
-/
namespace TreeQuery.Stored

/-! ## Nodes -/

/-- A name by the numbers of its parts. Number zero stands for a prefix or a URI that is not
there. -/
structure Name where
  pfx : UInt32
  localPart : UInt32
  uri : UInt32
deriving DecidableEq

inductive Content where
  | document
  | element (name : Name) (bindings attrs : UInt16)
  | attr (name : Name) (value : UInt32)
  | binding (pfx uri : UInt32)
  | text (value : UInt32)
  | cdata (value : UInt32)
  | comment (value : UInt32)
  | instruction (target value : UInt32)
  | doctype (value : UInt32)
  | declaration (value : UInt32)
deriving DecidableEq

structure Node where
  content : Content
  parent : Option NodeId
  firstChild : Option NodeId := none
  lastChild : Option NodeId := none
  prevSibling : Option NodeId := none
  nextSibling : Option NodeId := none
  depth : UInt16
deriving DecidableEq

section
variable (pool : StringPool)

def Name.read (name : Name) : QName :=
  ⟨pool.get name.pfx, pool.get name.localPart, pool.get name.uri⟩

namespace Content

/-- The content with strings in place of their numbers. -/
def read : Content → TreeQuery.Content
  | document => .document
  | element name bindings attrs => .element (name.read pool) bindings.toNat attrs.toNat
  | attr name value => .attr (name.read pool) (pool.get value)
  | binding pfx uri => .binding (pool.get pfx) (pool.get uri)
  | text value => .text (pool.get value)
  | cdata value => .cdata (pool.get value)
  | comment value => .comment (pool.get value)
  | instruction target value => .instruction (pool.get target) (pool.get value)
  | doctype value => .doctype (pool.get value)
  | declaration value => .declaration (pool.get value)

/-- The number of the prefix. -/
def pfx : Content → UInt32
  | element name _ _ | attr name _ => name.pfx
  | _ => 0

/-- The number of the URI that the prefix stands for. -/
def uri : Content → UInt32
  | element name _ _ | attr name _ => name.uri
  | _ => 0

end Content

def Node.read (n : Node) : TreeQuery.Node :=
  { content := n.content.read pool
    parent := n.parent
    firstChild := n.firstChild
    lastChild := n.lastChild
    prevSibling := n.prevSibling
    nextSibling := n.nextSibling
    depth := n.depth }

end

/-! ## Documents -/

structure Document where
  nodes : Array Node
  strings : StringPool
  /-- The first element that is a child of the document node. -/
  rootElement : Option NodeId

namespace Document

variable (d : Document)

/-- The document with strings in place of their numbers. -/
def read : TreeQuery.Document := ⟨d.nodes.map (Node.read d.strings), d.rootElement⟩

/-- The document as queries see it. A prefix and a URI are there when their numbers are not zero,
whatever is read for them. -/
def view : View :=
  { d.read.view with
    pfx? := fun id => (d.nodes[id]?).bind fun n => d.strings.getNonEmpty? n.content.pfx
    uri? := fun id => (d.nodes[id]?).bind fun n => d.strings.getNonEmpty? n.content.uri }

end Document

/-! ## Scopes -/

/-- A declaration by the numbers of its strings. Number zero is that of the default namespace, or
takes a prefix back. -/
structure Declaration where
  pfx : UInt32
  uri : UInt32
  depth : UInt16
deriving DecidableEq

/-- The declarations in force, the last one first, and the depth reached. -/
structure Scope where
  declarations : List Declaration
  depth : UInt16
  /-- The numbers of the prefixes that cannot be declared. -/
  xml : UInt32
  xmlns : UInt32

namespace Scope

/-- Puts the strings of the predeclared prefixes into a pool. -/
def initial (pool : StringPool) : Scope × StringPool :=
  let (xml, pool) := pool.intern "xml"
  let (xmlns, pool) := pool.intern "xmlns"
  let (xmlUri, pool) := pool.intern Namespace.xml
  let (xmlnsUri, pool) := pool.intern Namespace.xmlns
  (⟨[⟨xmlns, xmlnsUri, 0⟩, ⟨xml, xmlUri, 0⟩], 0, xml, xmlns⟩, pool)

variable (s : Scope)

def isReserved (pfx : UInt32) : Bool := pfx == s.xml || pfx == s.xmlns

/-- Enters an element. The depth is a 16-bit word. -/
def push : Scope := { s with depth := s.depth + 1 }

/-- Leaves an element, and with it the declarations made at its depth or deeper. -/
def pop : Scope :=
  { s with
    declarations := s.declarations.dropWhile (s.depth ≤ ·.depth)
    depth := if s.depth = 0 then 0 else s.depth - 1 }

def declare (pfx uri : UInt32) : Scope :=
  if s.isReserved pfx then s
  else { s with declarations := ⟨pfx, uri, s.depth⟩ :: s.declarations }

/-- The number of the URI of a prefix, when it has one. -/
def resolve? (pfx : UInt32) : Option UInt32 :=
  ((s.declarations.find? (·.pfx == pfx)).map (·.uri)).filter (· != 0)

/-- Those of a list of declarations, last one first, that no later one for their prefix replaces,
again last one first. `later` holds the prefixes met so far. -/
def effective (later : List UInt32) : List Declaration → List Declaration
  | [] => []
  | d :: ds =>
    if later.contains d.pfx then effective later ds else d :: effective (d.pfx :: later) ds

/-- The bindings in force, outermost first. -/
def bindings : List (UInt32 × UInt32) :=
  ((effective [] s.declarations).filter fun d => d.uri != 0 && !s.isReserved d.pfx).reverse.map
    fun d => (d.pfx, d.uri)

/-- Takes in the declarations among the attributes of an element. -/
def declareAll (s : Scope) (pool : StringPool) : WrittenAttrs → Scope × StringPool
  | [] => (s, pool)
  | (name, value) :: attrs =>
    match Builder.declared? name with
    | none => s.declareAll pool attrs
    | some pfx =>
      let (pfx, pool) := pool.intern pfx
      let (uri, pool) := pool.intern value
      (s.declare pfx uri).declareAll pool attrs

/-- The name of an element; without a prefix it is in the default namespace. -/
def elementName (pool : StringPool) (written : String) : Name × StringPool :=
  let (pfx, localPart) := QName.split written
  let (localPart, pool) := pool.intern localPart
  let (pfx, pool) := pool.intern pfx
  (⟨pfx, localPart, (s.resolve? pfx).getD 0⟩, pool)

/-- An attribute; without a prefix its name is in no namespace. -/
def attr (pool : StringPool) (written value : String) : Content × StringPool :=
  let (pfx, localPart) := QName.split written
  let (localPart, pool) := pool.intern localPart
  let (value, pool) := pool.intern value
  let (pfx, pool) := pool.intern pfx
  (.attr ⟨pfx, localPart, if pfx = 0 then 0 else (s.resolve? pfx).getD 0⟩ value, pool)

def attrs (s : Scope) (pool : StringPool) : WrittenAttrs → List Content × StringPool
  | [] => ([], pool)
  | (written, value) :: rest =>
    let (first, pool) := s.attr pool written value
    let (rest, pool) := s.attrs pool rest
    (first :: rest, pool)

end Scope

/-- An element that opens: the scope inside it, its name and its attributes, and the pool that has
all their strings. -/
structure Opening where
  scope : Scope
  name : Name
  attrs : List Content
  strings : StringPool

namespace Opening

open TreeQuery.Builder (declared? wordMax)

def of (s : Scope) (pool : StringPool) (name : String) (attrs : WrittenAttrs) : Opening :=
  let (scope, strings) := s.push.declareAll pool attrs
  let (name, strings) := scope.elementName strings name
  let plain := (attrs.filter fun (name, _) => (declared? name).isNone).take wordMax
  let (attrs, strings) := scope.attrs strings plain
  ⟨scope, name, attrs, strings⟩

variable (o : Opening)

def bindings : List (UInt32 × UInt32) := o.scope.bindings.take wordMax

def element : Content := .element o.name (.ofNat o.bindings.length) (.ofNat o.attrs.length)

/-- The nodes behind the element. -/
def owned : List Content := o.bindings.map (fun (pfx, uri) => .binding pfx uri) ++ o.attrs

end Opening

/-! ## Builders -/

structure Builder where
  nodes : Array Node
  strings : StringPool
  scope : Scope
  /-- The open elements, innermost first. -/
  openElements : List NodeId
  rootElement : Option NodeId

namespace Builder

open TreeQuery.Builder (wordMax)

/-- A builder without events, over a hash of strings. -/
def initial (hash : String → UInt64) : Builder :=
  let (scope, strings) := Scope.initial (.empty hash)
  { nodes := #[{ content := .document, parent := none, depth := 0 }]
    strings
    scope
    openElements := []
    rootElement := none }

variable (b : Builder)

/-- The node that the next node becomes a child of. -/
def parent : NodeId := b.openElements.headD View.documentNode

/-- The depth of the next node: one more than that of its parent, but it stays at the largest
word. -/
def depth : UInt16 :=
  UInt16.ofNat (min ((b.nodes[b.parent]?).elim 0 (·.depth.toNat) + 1) wordMax)

/-- Puts a node behind all others as the last child of its parent. -/
def addChild (content : Content) : Builder :=
  let parent := b.parent
  let depth := b.depth
  let ⟨nodes, strings, scope, openElements, rootElement⟩ := b
  let id := nodes.size
  let last := (nodes[parent]?).bind (·.lastChild)
  let nodes := nodes.modify parent fun p =>
    { p with firstChild := p.firstChild.or (some id), lastChild := some id }
  let nodes :=
    match last with
    | some sibling => nodes.modify sibling fun n => { n with nextSibling := some id }
    | none => nodes
  let nodes := nodes.push { content, parent := some parent, prevSibling := last, depth }
  ⟨nodes, strings, scope, openElements, rootElement⟩

/-- Puts nodes behind all others that belong to an element without being its children. -/
def addOwned (owner : NodeId) (depth : UInt16) (contents : List Content) : Builder :=
  { b with
    nodes := contents.foldl
      (fun nodes content => nodes.push { content, parent := some owner, depth }) b.nodes }

/-- Opens an element: the node itself, its bindings and its attributes. -/
def openElement (name : String) (attrs : WrittenAttrs) : NodeId × Builder :=
  let id := b.nodes.size
  let depth := b.depth
  let openElements := b.openElements
  let rootElement :=
    b.rootElement.or (if b.parent = View.documentNode then some id else none)
  let opening := Opening.of b.scope b.strings name attrs
  let built := (b.addChild opening.element).addOwned id (depth + 1) opening.owned
  (id,
    { built with
      strings := opening.strings
      scope := opening.scope
      openElements := id :: openElements
      rootElement })

/-- Closes the innermost open element, when there is one. -/
def closeElement : Builder :=
  match b.openElements with
  | [] => b
  | _ :: outer => { b with openElements := outer, scope := b.scope.pop }

/-- Adds a node without children that holds one text. -/
def addLeaf (content : UInt32 → Content) (value : String) : Option NodeId × Builder :=
  let (value, strings) := b.strings.intern value
  (some b.nodes.size, { b with strings }.addChild (content value))

def addInstruction (target value : String) : Option NodeId × Builder :=
  let (target, strings) := b.strings.intern target
  let (value, strings) := strings.intern value
  (some b.nodes.size, { b with strings }.addChild (.instruction target value))

/-- Takes in one event, and gives the number of the node that it adds. -/
def feed : Event → Option NodeId × Builder
  | .start name attrs =>
    let (id, b) := b.openElement name attrs
    (some id, b)
  | .close => (none, b.closeElement)
  | .empty name attrs =>
    let (id, b) := b.openElement name attrs
    (some id, b.closeElement)
  | .text value => b.addLeaf .text value
  | .cdata value => b.addLeaf .cdata value
  | .comment value => b.addLeaf .comment value
  | .doctype value => b.addLeaf .doctype value
  | .declaration value => b.addLeaf .declaration value
  | .instruction target value => b.addInstruction target value

/-- Takes in all events, and gives what each of them adds. -/
def feedAll (b : Builder) : List Event → List (Option NodeId) × Builder
  | [] => ([], b)
  | event :: events =>
    let (id, b) := b.feed event
    let (ids, b) := b.feedAll events
    (id :: ids, b)

/-- The document; elements that are still open end here. -/
def finish : Document := ⟨b.nodes, b.strings, b.rootElement⟩

end Builder

/-- The document that events describe, over a hash of strings. -/
def Document.ofEvents (hash : String → UInt64) (events : List Event) : Document :=
  ((Builder.initial hash).feedAll events).2.finish

end TreeQuery.Stored
