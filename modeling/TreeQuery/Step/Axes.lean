import TreeQuery.Expr.Axis
import TreeQuery.Tree.View

/-!
Where each axis leads from a node. Forward axes list nodes in document order, reverse axes from the
node outward. Attributes and bindings have a parent but neither children nor siblings.
-/
namespace TreeQuery.View

variable (v : View)

/-- Nodes below or beside a node; an owned node has none. -/
def unlessOwned (id : NodeId) (nodes : List NodeId) : List NodeId :=
  if v.isOwned id then [] else nodes

def siblingsFrom (next? : NodeId → Option NodeId) (id : NodeId) : List NodeId :=
  chain next? v.size (next? id)

/-- The siblings behind a node, each with what is below it. -/
def behind (id : NodeId) : List NodeId :=
  (v.siblingsFrom v.nextSibling? id).flatMap fun sibling => sibling :: v.descendants sibling

/-- What lies behind a node and behind each node above it. -/
def behindAll (id : NodeId) : List NodeId := (id :: v.ancestors id).flatMap v.behind

/-- The nodes behind a node that are not below it. The content of an element lies behind its
attributes and bindings. -/
def following (id : NodeId) : List NodeId :=
  if v.isOwned id then
    match v.parent? id with
    | some owner => v.descendants owner ++ v.behindAll owner
    | none => []
  else v.behindAll id

/-- The nodes in front of a node that are not above it, nearest first. -/
def preceding (id : NodeId) : List NodeId :=
  let above := v.ancestors id
  ((documentNode :: v.descendants documentNode).takeWhile fun other => decide (other < id))
    |>.filter (fun other => !above.contains other)
    |>.reverse

/-- The nodes that an axis leads to. -/
def along (axis : Axis) (id : NodeId) : List NodeId :=
  match axis with
  | .child => v.unlessOwned id (v.children id)
  | .descendant => v.descendants id
  | .descendantOrSelf => id :: v.unlessOwned id (v.descendants id)
  | .parent => (v.parent? id).toList
  | .ancestor => v.ancestors id
  | .ancestorOrSelf => id :: v.ancestors id
  | .followingSibling => v.unlessOwned id (v.siblingsFrom v.nextSibling? id)
  | .precedingSibling => v.unlessOwned id (v.siblingsFrom v.prevSibling? id)
  | .following => v.following id
  | .preceding => v.preceding id
  | .self => [id]
  | .attributes => v.attributes id
  | .namespaces => v.bindings id

end TreeQuery.View
