import TreeQuery.Tree.Builder

/-!
Trees as they are written and as they are read. A view is read from a node down, by asking for the
kind, the name, the value, the attributes and the children of each node. Events describe a forest
when each end belongs to a start; other events describe what they do once their ends are put right.
-/
namespace TreeQuery

/-- A node with all that can be read of it and of the nodes below it. -/
inductive Tree where
  | node (kind : NodeKind) (name value : Option String)
      (attrs : List (Option String × Option String)) (children : List Tree)

/-! ## Reading -/

namespace View

variable (v : View)

/-- A node by itself, with the given trees below it. -/
def nodeRead (id : NodeId) (children : List Tree) : Tree :=
  .node (v.kind id) (v.name? id) (v.value? id)
    ((v.attributes id).map fun attr => (v.name? attr, v.value? attr)) children

/-- A node and what is below it, down to a depth. -/
def readFrom : Nat → NodeId → Tree
  | 0, id => v.nodeRead id []
  | depth + 1, id => v.nodeRead id ((v.children id).map (readFrom depth))

end View

/-! ## Trees of events -/

/-- A name as it is read: a colon in front of it is the end of an empty prefix. -/
def QName.shown (written : String) : String :=
  match written.toList with
  | ':' :: localPart => String.ofList localPart
  | _ => written

/-- Attributes that declare a prefix are read as bindings, not as attributes. -/
def WrittenAttrs.plain (attrs : WrittenAttrs) : WrittenAttrs :=
  attrs.filter fun (name, _) => !(name == "xmlns" || "xmlns:".isPrefixOf name)

namespace Tree

def element (name : String) (attrs : WrittenAttrs) (children : List Tree) : Tree :=
  .node .element (some (QName.shown name)) none
    (attrs.plain.map fun (name, value) => (some (QName.shown name), some value)) children

def leaf (kind : NodeKind) (name : Option String) (value : String) : Tree :=
  .node kind name (some value) [] []

def document (children : List Tree) : Tree := .node .document none none [] children

end Tree

namespace Event

/-- The tree of an event that is one by itself. -/
def tree? : Event → Option Tree
  | .start .. | .close => none
  | .empty name attrs => some (.element name attrs [])
  | .text value => some (.leaf .text none value)
  | .cdata value => some (.leaf .cdata none value)
  | .comment value => some (.leaf .comment none value)
  | .doctype value => some (.leaf .doctype none value)
  | .declaration value => some (.leaf .declaration none value)
  | .instruction target value => some (.leaf .instruction (some target) value)

/-- Events in which each end belongs to a start, and each start has an end, describe a forest. -/
inductive Describes : List Event → List Tree → Prop where
  | nil : Describes [] []
  | single {event : Event} {tree : Tree} {events : List Event} {trees : List Tree}
      (htree : event.tree? = some tree) (h : Describes events trees) :
      Describes (event :: events) (tree :: trees)
  | element {name : String} {attrs : WrittenAttrs} {inner events : List Event}
      {children trees : List Tree} (hinner : Describes inner children)
      (h : Describes events trees) :
      Describes (.start name attrs :: (inner ++ .close :: events))
        (.element name attrs children :: trees)

/-- The events with their ends put right, inside so many open elements: an end without an open
element is left out, and elements that are still open are closed at the end. -/
def balanced : Nat → List Event → List Event
  | depth, [] => List.replicate depth .close
  | 0, .close :: events => balanced 0 events
  | depth + 1, .close :: events => .close :: balanced depth events
  | depth, .start name attrs :: events => .start name attrs :: balanced (depth + 1) events
  | depth, event :: events => event :: balanced depth events

/-- What events add to the innermost open element, and what they add to the ones around it after
its end, innermost first. -/
def levels : List Event → List Tree × List (List Tree)
  | [] => ([], [])
  | .close :: events => ([], (levels events).1 :: (levels events).2)
  | .start name attrs :: events =>
    (.element name attrs (levels events).1 :: (levels events).2.headD [], (levels events).2.tail)
  | event :: events => (event.tree?.toList ++ (levels events).1, (levels events).2)

/-- The forest of any events, with their ends put right. -/
def forest (events : List Event) : List Tree := (levels events).1 ++ (levels events).2.flatten

/-! ## The forest that events describe -/

variable {event : Event} {events : List Event} {tree : Tree} {trees level : List Tree}
  {outer : List (List Tree)} {depth : Nat}

theorem levels_of_tree (htree : event.tree? = some tree) :
    levels (event :: events) = (tree :: (levels events).1, (levels events).2) := by
  cases event with
  | start | close => cases htree
  | _ =>
      cases htree
      rfl

theorem balanced_of_tree (htree : event.tree? = some tree) :
    balanced depth (event :: events) = event :: balanced depth events := by
  cases event with
  | start | close => cases htree
  | _ => cases depth <;> rfl

theorem balanced_start (name : String) (attrs : WrittenAttrs) :
    balanced depth (.start name attrs :: events) =
      .start name attrs :: balanced (depth + 1) events := by
  cases depth <;> rfl

/-- Described events in front of others add their trees to the level that they begin on. -/
theorem Describes.levels_append (h : Describes events trees) (rest : List Event) :
    levels (events ++ rest) = (trees ++ (levels rest).1, (levels rest).2) := by
  induction h generalizing rest with
  | nil => rfl
  | single htree _ ih => rw [List.cons_append, levels_of_tree htree, ih, List.cons_append]
  | @element name attrs inner events children trees _ _ ihinner ih =>
      have hclose : levels (.close :: (events ++ rest)) =
          ([], (trees ++ (levels rest).1) :: (levels rest).2) := by rw [levels, ih]
      rw [List.cons_append, List.append_assoc, List.cons_append, levels, ihinner, hclose]
      simp

theorem Describes.forest_eq (h : Describes events trees) : forest events = trees := by
  have hlevels := h.levels_append []
  rw [List.append_nil] at hlevels
  simp [forest, hlevels, levels]

/-- Events inside so many open elements: those up to the end of the innermost one describe the
first level, those up to the next end the second one, and so on; what is left is one forest. -/
def DescribesLevels : Nat → List Event → List Tree → List (List Tree) → Prop
  | 0, events, level, outer => Describes events (level ++ outer.flatten)
  | depth + 1, events, level, outer =>
    ∃ inner rest, events = inner ++ .close :: rest ∧ Describes inner level ∧
      DescribesLevels depth rest (outer.headD []) outer.tail

/-- One more tree in front of all levels. -/
theorem DescribesLevels.cons {front : List Event}
    (hfront : ∀ events trees, Describes events trees → Describes (front ++ events) (tree :: trees))
    (h : DescribesLevels depth events level outer) :
    DescribesLevels depth (front ++ events) (tree :: level) outer := by
  cases depth with
  | zero => exact hfront _ _ h
  | succ depth =>
      obtain ⟨inner, rest, rfl, hinner, hrest⟩ := h
      exact ⟨front ++ inner, rest, (List.append_assoc ..).symm, hfront _ _ hinner, hrest⟩

theorem describesLevels_replicate (depth : Nat) :
    DescribesLevels depth (List.replicate depth .close) [] [] := by
  induction depth with
  | zero => exact .nil
  | succ depth ih => exact ⟨[], _, rfl, .nil, ih⟩

theorem describesLevels_balanced (events : List Event) (depth : Nat) :
    DescribesLevels depth (balanced depth events) (levels events).1 (levels events).2 := by
  induction events generalizing depth with
  | nil =>
      rw [balanced]
      exact describesLevels_replicate depth
  | cons event events ih =>
      cases htree : event.tree? with
      | some tree =>
          rw [balanced_of_tree htree, levels_of_tree htree]
          have hsingle : ∀ after trees, Describes after trees →
              Describes ([event] ++ after) (tree :: trees) := fun _ _ h => .single htree h
          exact (ih depth).cons hsingle
      | none =>
          cases event with
          | close =>
              cases depth with
              | zero => exact ih 0
              | succ depth => exact ⟨[], _, rfl, .nil, ih depth⟩
          | start name attrs =>
              obtain ⟨inner, rest, hbalanced, hinner, hrest⟩ := ih (depth + 1)
              have hstart : balanced depth (.start name attrs :: events) =
                  (.start name attrs :: (inner ++ [.close])) ++ rest := by
                rw [balanced_start, hbalanced]
                simp
              rw [hstart]
              refine hrest.cons fun after trees h => ?_
              rw [List.cons_append, List.append_assoc]
              exact .element hinner h
          | _ => cases htree

/-- Events with their ends put right describe one forest. -/
theorem describes_balanced_iff : Describes (balanced 0 events) trees ↔ trees = forest events := by
  have hforest : Describes (balanced 0 events) (forest events) := describesLevels_balanced events 0
  constructor
  · intro h
    rw [← h.forest_eq, hforest.forest_eq]
  · rintro rfl
    exact hforest

end Event

end TreeQuery
