import Mathlib.Data.List.Basic
import TreeQuery.Proofs.Tree.Stored.Builder
import TreeQuery.Proofs.Tree.Traversal

/-!
String-values. The text of an element or of the document is that of its children, one after the
other, where an element stands for its own text; and the text of a whole document is all text that
its events bring, in the order in which they come, wherever elements start and end.
-/
namespace TreeQuery

theorem join_map_flatMap {α β : Type} (f : β → String) (g : α → List β) (l : List α) :
    String.join ((l.flatMap g).map f) = String.join (l.map fun a => String.join ((g a).map f)) := by
  induction l with
  | nil => rfl
  | cons a l ih => simp [ih]

theorem join_map_filter {α : Type} (q : α → Bool) (f : α → String) (l : List α) :
    String.join ((l.filter q).map f) = String.join (l.map fun a => if q a then f a else "") := by
  induction l with
  | nil => rfl
  | cons a l ih => cases hq : q a <;> simp [hq, ih]

theorem join_map_eq_empty {α : Type} {f : α → String} {l : List α} (h : ∀ a ∈ l, f a = "") :
    String.join (l.map f) = "" := by
  induction l with
  | nil => rfl
  | cons a l ih =>
      obtain ⟨ha, hl⟩ := List.forall_mem_cons.mp h
      simp [ha, ih hl]

/-! ## Text below a node -/

namespace View

variable (v : View)

/-- The text that a node brings by itself. -/
def ownText (id : NodeId) : String := if (v.kind id).isText then (v.value? id).getD "" else ""

/-- What a child adds to the string-value of its parent. -/
def childText (child : NodeId) : String :=
  match v.kind child with
  | .text | .cdata => (v.value? child).getD ""
  | .element => v.stringValue child
  | _ => ""

variable {v} {x : NodeId}

theorem stringValue_of_kind (h : v.kind x = .document ∨ v.kind x = .element) :
    v.stringValue x = String.join ((v.descendants x).map v.ownText) := by
  rw [stringValue]
  rcases h with h | h <;> rw [h] <;> exact join_map_filter ..

end View

namespace Document.WellBuilt

variable {d : Document} {x c : Nat} (h : d.WellBuilt)
include h

/-- The nodes below a node are its children, each with the nodes below it. -/
theorem descendants_eq_flatMap :
    d.view.descendants x = (d.view.children x).flatMap fun c => c :: d.view.descendants c := by
  obtain ⟨n, hn⟩ : ∃ n, d.size = n + 1 := ⟨d.size - 1, by have := h.size_pos; omega⟩
  have hsize : d.view.size = n + 1 := hn
  rw [View.descendants, hsize, View.below_succ]
  refine List.flatMap_congr fun c hc => congrArg (c :: ·) ?_
  rw [show d.view.children x = d.offspring x from h.children_eq, mem_offspring_iff] at hc
  have hlt := h.parent_lt c x hc.2
  refine (h.ascending_below n).ext h.lists_descendants.ascending fun y => ?_
  rw [h.lists_descendants.mem_iff]
  exact ⟨h.isAbove_of_mem_below n, fun hy => h.mem_below n (by omega) hy.1 hy.2⟩

/-- Only the document node and elements have nodes below them. -/
theorem descendants_eq_nil (hx : x ≠ View.documentNode) (hk : d.kind x ≠ .element) :
    d.view.descendants x = [] := by
  refine List.eq_nil_iff_forall_not_mem.mpr fun y hy => ?_
  obtain ⟨_, habove⟩ := (h.lists_descendants.mem_iff y).mp hy
  obtain ⟨child, hchild, _⟩ := View.isAbove_iff_child.mp habove
  exact (h.kind_parent child x hchild).elim hx hk

theorem childText_eq (hc : c ≠ View.documentNode) :
    d.view.childText c =
      String.join ((c :: d.view.descendants c).map d.view.ownText) := by
  rw [List.map_cons, String.join_cons, View.childText, View.ownText]
  by_cases hk : d.kind c = .element
  · have hview : d.view.kind c = .element := hk
    rw [hview, View.stringValue_of_kind (.inr hview)]
    simp [NodeKind.isText]
  · rw [h.descendants_eq_nil hc hk]
    change d.view.kind c ≠ .element at hk
    cases hkind : d.view.kind c <;> simp_all [NodeKind.isText]

theorem stringValue_eq_join_children (hk : d.kind x = .document ∨ d.kind x = .element) :
    d.view.stringValue x = String.join ((d.view.children x).map d.view.childText) := by
  rw [View.stringValue_of_kind hk, h.descendants_eq_flatMap, join_map_flatMap]
  refine congrArg String.join (List.map_congr_left fun c hc => (h.childText_eq ?_).symm)
  rw [show d.view.children x = d.offspring x from h.children_eq, mem_offspring_iff] at hc
  exact Nat.ne_of_gt (Nat.zero_lt_of_lt (h.parent_lt c x hc.2))

/-- The text of the whole document is that of all its nodes, one after the other. -/
theorem stringValue_documentNode :
    d.view.stringValue View.documentNode =
      String.join ((List.range d.size).map d.view.ownText) := by
  have hkind : d.kind View.documentNode = .document := kind_of_content? h.content?_documentNode
  have hown : d.view.ownText View.documentNode = "" := by
    rw [View.ownText, show d.view.kind View.documentNode = .document from hkind]
    rfl
  have htree : View.documentNode :: d.view.descendants View.documentNode =
      (List.range d.size).filter fun y => !d.view.isOwned y := by
    refine h.lists_all.ascending.ext (List.pairwise_lt_range.filter _) fun y => ?_
    rw [h.lists_all.mem_iff]
    simp [InTree]
  calc d.view.stringValue View.documentNode
      = String.join ((d.view.descendants View.documentNode).map d.view.ownText) :=
        View.stringValue_of_kind (.inl hkind)
    _ = String.join ((View.documentNode :: d.view.descendants View.documentNode).map
          d.view.ownText) := by rw [List.map_cons, String.join_cons, hown, String.empty_append]
    _ = String.join ((List.range d.size).map d.view.ownText) := by
        rw [htree, join_map_filter]
        refine congrArg String.join (List.map_congr_left fun y _ => ?_)
        rw [View.ownText, View.isOwned]
        cases d.view.kind y <;> rfl

end Document.WellBuilt

/-! ## Text of events -/

/-- The text that an event brings. -/
def Event.text? : Event → Option String
  | .text value | .cdata value => some value
  | _ => none

/-- The text that a node of this content brings by itself. -/
def Content.ownText (content : Content) : String :=
  if content.kind.isText then content.value?.getD "" else ""

namespace Builder

variable {b b' : Builder} {content : Content}

/-- The text of all nodes, one after the other. -/
def textSoFar (b : Builder) : String :=
  String.join (b.nodes.toList.map fun n => n.content.ownText)

theorem contents_relinked (b : Builder) :
    b.relinked.toList.map (fun n => n.content.ownText) =
      b.nodes.toList.map fun n => n.content.ownText := by
  refine List.ext_getElem? fun id => ?_
  rw [List.getElem?_map, List.getElem?_map, Array.getElem?_toList, Array.getElem?_toList,
    getElem?_relinked, Option.map_map]
  rfl

/-- A child that is added brings its own text, and what it owns brings none. -/
theorem Grows.textSoFar_eq (hg : b.Grows b' content) :
    b'.textSoFar = b.textSoFar ++ content.ownText := by
  obtain ⟨depth, owned, hnodes, _, hkind⟩ := hg.nodes_eq
  have howned : ∀ c ∈ owned, c.ownText = "" := by
    intro c hc
    obtain ⟨i, hi⟩ := List.getElem?_of_mem hc
    have hk := hkind i c hi
    rw [Content.ownText, hk]
    split <;> rfl
  have hbehind : String.join (owned.map Content.ownText) = "" := join_map_eq_empty howned
  rw [textSoFar, textSoFar, hnodes, grown_eq_append, addChild_nodes]
  simp only [Array.toList_append, Array.toList_push, List.map_append, List.map_cons, List.map_nil,
    List.map_map, contents_relinked, String.join_append, String.join_cons, String.join_nil,
    String.append_empty, Function.comp_def, hbehind]

theorem textSoFar_feed (b : Builder) (event : Event) :
    (b.feed event).2.textSoFar = b.textSoFar ++ event.text?.getD "" := by
  cases event with
  | start name attrs | empty name attrs =>
      obtain ⟨content, hkind, hg⟩ := b.grows_openElement name attrs
      have hnone : content.ownText = "" := by
        rw [Content.ownText, hkind]
        rfl
      refine (@Grows.textSoFar_eq b _ content ?_).trans (congrArg _ hnone)
      exact ⟨hg.nodes_eq, hg.rootElement_eq, hg.not_isOwned⟩
  | close =>
      have hnodes : b.closeElement.nodes = b.nodes := congrArg Document.nodes b.finish_closeElement
      change b.closeElement.textSoFar = b.textSoFar ++ ""
      rw [textSoFar, textSoFar, hnodes, String.append_empty]
  | text | cdata | comment | doctype | declaration | instruction =>
      exact (b.grows_addChild _ rfl (by simp [Content.kind]) rfl).textSoFar_eq

theorem textSoFar_feedAll (b : Builder) (events : List Event) :
    (b.feedAll events).2.textSoFar =
      b.textSoFar ++ String.join (events.filterMap Event.text?) := by
  induction events generalizing b with
  | nil => simp [feedAll]
  | cons event events ih =>
      rw [feedAll, ih, textSoFar_feed, String.append_assoc]
      cases htext : event.text? <;> simp [htext]

end Builder

namespace Document

theorem map_ownText (d : Document) : (List.range d.size).map d.view.ownText =
    d.nodes.toList.map fun n => n.content.ownText := by
  refine List.ext_getElem (by simp [size]) fun id hid _ => ?_
  have hlt : id < d.nodes.size := by simpa [size] using hid
  have hcontent : d.content? id = some d.nodes[id].content :=
    congrArg (Option.map Node.content) (Array.getElem?_eq_getElem hlt)
  have hkind : d.view.kind id = d.nodes[id].content.kind := kind_of_content? hcontent
  have hvalue : d.view.value? id = d.nodes[id].content.value? :=
    congrArg (fun c => c.bind Content.value?) hcontent
  rw [List.getElem_map, List.getElem_map, List.getElem_range, Array.getElem_toList, View.ownText,
    hkind, hvalue]
  rfl

theorem text_ofEvents (events : List Event) :
    (ofEvents events).view.stringValue View.documentNode =
      String.join (events.filterMap Event.text?) :=
  calc (ofEvents events).view.stringValue View.documentNode
      = (Builder.initial.feedAll events).2.textSoFar :=
        (wellBuilt_ofEvents events).stringValue_documentNode.trans
          (congrArg String.join (map_ownText _))
    _ = Builder.initial.textSoFar ++ String.join (events.filterMap Event.text?) :=
        Builder.textSoFar_feedAll _ _
    _ = String.join (events.filterMap Event.text?) := String.empty_append

end Document

namespace Stored.Document

/-! ## Documents with a pool -/

theorem below_view (d : Document) (depth : Nat) (x : NodeId) (rest : List NodeId) :
    d.view.below depth x rest = d.read.view.below depth x rest := by
  induction depth generalizing x rest with
  | zero => rfl
  | succ depth ih =>
      rw [View.below, View.below]
      refine congrArg (List.foldr · rest (d.read.view.children x)) ?_
      exact funext fun c => funext fun behind => congrArg (c :: ·) (ih c behind)

theorem stringValue_view (d : Document) : d.view.stringValue = d.read.view.stringValue := by
  funext x
  rw [View.stringValue, View.stringValue, View.descendants, below_view]
  rfl

theorem childText_view (d : Document) : d.view.childText = d.read.view.childText := by
  funext x
  rw [View.childText, View.childText, stringValue_view]
  rfl

end Stored.Document

end TreeQuery
