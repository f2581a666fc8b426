import TreeQuery.Proofs.Ascending
import TreeQuery.Proofs.Tree.Lineage
import TreeQuery.Tree.Document

/-!
What holds in a row of nodes that describes a tree in document order: parents stand in front of
their children, attributes and bindings right behind their element, and all of a subtree in one
piece. The links of a node agree with what its parent and the kinds of nodes say.
-/
namespace TreeQuery.Document

def lastChild? (d : Document) (id : NodeId) : Option NodeId := (d.node? id).bind (·.lastChild)

/-- The nodes other than attributes and bindings that have a given parent, in ascending order. -/
def offspring (d : Document) (parent : NodeId) : List NodeId :=
  (List.range d.size).filter fun id => d.view.parent? id == some parent && !d.view.isOwned id

/-- The links of a node and of its children form one list, linked in both directions. -/
structure Linked (d : Document) (parent : NodeId) (nodes : List NodeId) : Prop where
  first : d.firstChild? parent = nodes.head?
  last : d.lastChild? parent = nodes.getLast?
  next : ∀ i id, nodes[i]? = some id → d.nextSibling? id = nodes[i + 1]?
  prev : ∀ i id, nodes[i]? = some id →
    d.view.prevSibling? id = if i = 0 then none else nodes[i - 1]?

/-- The row of nodes describes a tree in document order. -/
structure WellBuilt (d : Document) : Prop where
  content?_documentNode : d.content? View.documentNode = some .document
  parent?_documentNode : d.view.parent? View.documentNode = none
  exists_parent : ∀ id : Nat, 0 < id → id < d.size → ∃ p : Nat, p < id ∧ d.view.parent? id = some p
  kind_parent : ∀ id p, d.view.parent? id = some p → p = View.documentNode ∨ d.kind p = .element
  owned_behind : ∀ e, ∃ count, d.bindings e ++ d.attributes e = List.range' (e + 1) count
  mem_bindings : ∀ e id, id ∈ d.bindings e ↔ d.kind id = .binding ∧ d.view.parent? id = some e
  mem_attributes : ∀ e id, id ∈ d.attributes e ↔ d.kind id = .attr ∧ d.view.parent? id = some e
  linked : ∀ p, d.Linked p (d.offspring p)
  unlinked : ∀ id, d.view.parent? id = none ∨ d.view.isOwned id →
    d.nextSibling? id = none ∧ d.view.prevSibling? id = none
  subtree : ∀ x : Nat, x < d.size →
    ∃ stop : Nat, ∀ id : Nat, (id = x ∨ d.view.IsAbove x id) ↔ x ≤ id ∧ id < stop
  rootElement_eq : d.rootElement = (List.range d.size).find? fun id =>
    d.kind id == .element && d.view.parent? id == some View.documentNode

variable {d : Document} {e id p x y : Nat} {content : Content}

/-! ## Single nodes -/

theorem content?_isSome : (∃ content, d.content? id = some content) ↔ id < d.size := by
  simp only [content?, node?, Option.map_eq_some_iff, size]
  constructor
  · rintro ⟨_, n, hn, _⟩
    exact (Array.getElem?_eq_some_iff.mp hn).1
  · intro h
    exact ⟨_, _, Array.getElem?_eq_getElem h, rfl⟩

theorem lt_size_of_content? (h : d.content? id = some content) : id < d.size :=
  content?_isSome.mp ⟨content, h⟩

theorem content?_eq_none (h : d.size ≤ id) : d.content? id = none := by
  cases hc : d.content? id with
  | none => rfl
  | some content => exact absurd (lt_size_of_content? hc) (by omega)

theorem kind_of_content? (h : d.content? id = some content) : d.kind id = content.kind := by
  simp [kind, h]

theorem lt_size_of_kind (h : d.kind id ≠ .document) : id < d.size := by
  cases hc : d.content? id with
  | none => simp [kind, hc] at h
  | some content => exact lt_size_of_content? hc

theorem lt_size_of_parent? (h : d.view.parent? id = some p) : id < d.size := by
  obtain ⟨n, hn, _⟩ := Option.bind_eq_some_iff.mp h
  exact (Array.getElem?_eq_some_iff.mp hn).1

theorem parent?_eq_none (h : d.size ≤ id) : d.view.parent? id = none := by
  cases hp : d.view.parent? id with
  | none => rfl
  | some p => exact absurd (lt_size_of_parent? hp) (by omega)

theorem isOwned_iff : d.view.isOwned id ↔ d.kind id = .attr ∨ d.kind id = .binding := by
  rw [View.isOwned, show d.view.kind id = d.kind id from rfl]
  cases d.kind id <;> simp [NodeKind.isOwned]

/-! ## Children -/

theorem mem_offspring : id ∈ d.offspring p ↔ d.view.parent? id = some p ∧ ¬ d.view.isOwned id := by
  simp only [offspring, List.mem_filter, List.mem_range, Bool.and_eq_true, beq_iff_eq,
    Bool.not_eq_true', Bool.not_eq_true]
  exact and_iff_right_of_imp fun h => lt_size_of_parent? h.1

theorem ascending_offspring : Ascending (d.offspring p) := List.pairwise_lt_range.filter _

theorem offspring_eq_nil (h : ∀ id, d.view.parent? id ≠ some p) : d.offspring p = [] := by
  refine List.eq_nil_iff_forall_not_mem.mpr fun id hid => ?_
  exact h id (mem_offspring.mp hid).1

namespace WellBuilt

variable (h : d.WellBuilt)
include h

theorem parent_lt (id p : Nat) (hp : d.view.parent? id = some p) : p < id := by
  rcases Nat.eq_zero_or_pos id with rfl | hpos
  · rw [show (0 : Nat) = View.documentNode from rfl, h.parent?_documentNode] at hp
    cases hp
  · obtain ⟨q, hq, hparent⟩ := h.exists_parent id hpos (lt_size_of_parent? hp)
    rw [hparent, Option.some.injEq] at hp
    omega

theorem size_pos : 0 < d.size := lt_size_of_content? h.content?_documentNode

end WellBuilt

end TreeQuery.Document
