/-!
Namespace declarations in scope while a document is read. Declarations pile up with the depth of
the element that made them; the last one for a prefix counts, and one of the empty URI takes the
prefix back. The prefixes `xml` and `xmlns` are declared from the start and by nobody else.
-/
namespace TreeQuery

namespace Namespace

def xml : String := "http://www.w3.org/XML/1998/namespace"

def xmlns : String := "http://www.w3.org/2000/xmlns/"

end Namespace

/-- One declaration. The empty prefix stands for the default namespace. -/
structure Declaration where
  pfx : String
  uri : String
  depth : UInt16
deriving DecidableEq

/-- The declarations in force, the last one first, and the depth reached. -/
structure Scope where
  declarations : List Declaration
  depth : UInt16

namespace Scope

/-- Prefixes that cannot be declared. -/
def isReserved (pfx : String) : Bool := pfx == "xml" || pfx == "xmlns"

def initial : Scope :=
  { declarations := [⟨"xmlns", Namespace.xmlns, 0⟩, ⟨"xml", Namespace.xml, 0⟩], depth := 0 }

instance : Inhabited Scope := ⟨initial⟩

/-- Enters an element. The depth is a 16-bit word. -/
def push (s : Scope) : Scope := { s with depth := s.depth + 1 }

/-- Leaves an element, and with it the declarations made at its depth or deeper. -/
def pop (s : Scope) : Scope :=
  { declarations := s.declarations.dropWhile (s.depth ≤ ·.depth)
    depth := if s.depth = 0 then 0 else s.depth - 1 }

def declare (s : Scope) (pfx uri : String) : Scope :=
  if isReserved pfx then s
  else { s with declarations := ⟨pfx, uri, s.depth⟩ :: s.declarations }

def declareDefault (s : Scope) (uri : String) : Scope := s.declare "" uri

/-- The URI of a prefix, when it has one. -/
def resolve? (s : Scope) (pfx : String) : Option String :=
  ((s.declarations.find? (·.pfx == pfx)).map (·.uri)).filter (· != "")

def resolveDefault? (s : Scope) : Option String := s.resolve? ""

/-- Those of a list of declarations, last one first, that no later one for their prefix replaces,
again last one first. `later` holds the prefixes met so far. -/
def effective (later : List String) : List Declaration → List Declaration
  | [] => []
  | d :: ds =>
    if later.contains d.pfx then effective later ds else d :: effective (d.pfx :: later) ds

/-- The bindings in force, outermost first: prefix and URI of each prefix that has one, the two
reserved prefixes left out. -/
def bindings (s : Scope) : List (String × String) :=
  ((effective [] s.declarations).filter fun d => d.uri != "" && !isReserved d.pfx).reverse.map
    fun d => (d.pfx, d.uri)

end Scope

end TreeQuery
