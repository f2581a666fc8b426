import TreeQuery.Expr.Parser
import TreeQuery.Proofs.Eval.Pointwise

/-!
Ways down a document. The children of a node and of all nodes below it are the nodes below it, so
the two steps that a double slash starts put the same nodes under test as one step to the
descendants. With predicates that ask for no position they come to the same.
-/
namespace TreeQuery

open TreeQuery.Expr

/-! ## Children and descendants -/

namespace Document.WellBuilt

variable {d : Document} {x y : Nat} (h : d.WellBuilt)
include h

/-- A node is below another one when it is a child of that or of a node below that. -/
theorem mem_descendant_iff_child (hx : x < d.size) : y ∈ d.view.along .descendant x ↔
    ∃ z ∈ d.view.along .descendantOrSelf x, y ∈ d.view.along .child z := by
  have hsize : ∀ z ∈ d.view.along .descendantOrSelf x, z < d.size := fun z hz =>
    h.lt_size_of_mem_along hx .descendantOrSelf hz
  rw [h.mem_along_iff hx .descendant, OnAxis, View.isAbove_iff]
  constructor
  · rintro ⟨hy, z, hp, hz⟩
    have hmem : z ∈ d.view.along .descendantOrSelf x :=
      (h.mem_along_iff hx _).mpr (hz.imp Eq.symm fun hz => ⟨h.inTree_of_parent hp, hz⟩)
    exact ⟨z, hmem, (h.mem_along_iff (hsize z hmem) .child).mpr ⟨hy, hp⟩⟩
  · rintro ⟨z, hz, hy⟩
    obtain ⟨hy, hp⟩ := (h.mem_along_iff (hsize z hz) .child).mp hy
    exact ⟨hy, z, hp, ((h.mem_along_iff hx .descendantOrSelf).mp hz).imp Eq.symm And.right⟩

end Document.WellBuilt

/-! ## Steps down -/

section
variable {d : Document} {options : QueryOptions} {test : NodeTest} {predicates : List Expr}
  {ids : List NodeId}

/-- A name stands for an element on both ways down. -/
theorem ready_descendant (test : NodeTest) : test.ready .descendant = test.ready .child := by
  cases test <;> rfl

theorem evalSteps_single (axis : Axis) : evalSteps d.view options [step axis test predicates] ids =
    Selection.step d.view options axis (test.ready axis)
      (conditions d.view options predicates) ids := by
  rw [evalSteps_cons]
  cases Selection.step d.view options axis (test.ready axis)
    (conditions d.view options predicates) ids with
  | error err => rfl
  | ok kept => simp [evalSteps]

/-- The step that a double slash stands for leads to the nodes themselves and all below them. -/
theorem evalSteps_anyDepth (d : Document) (options : QueryOptions) (ids : List NodeId) :
    ∃ reached, (∀ z, z ∈ reached ↔ ∃ x ∈ ids, z ∈ d.view.along .descendantOrSelf x) ∧
      ∀ rest, evalSteps d.view options (anyDepth :: rest) ids =
        evalSteps d.view options rest reached := by
  obtain ⟨reached, hreached, hlist⟩ := Selection.lists_step (q := (· ∈ ids)) d.view options
    .descendantOrSelf (NodeTest.node.ready .descendantOrSelf)
    (List.forall_mem_nil _) fun _ => Iff.rfl
  refine ⟨reached, fun z => ?_, fun rest => ?_⟩
  · rw [hlist.mem_iff]
    exact and_iff_left ⟨rfl, List.forall_mem_nil _⟩
  · rw [anyDepth, evalSteps_cons, conditions, hreached, ok_bind]

theorem concur_steps_down (hd : d.WellBuilt) (hids : ∀ x ∈ ids, x < d.size)
    (h : ∀ e ∈ predicates, e.PositionFree ∧ e.NeverNumber d.view options) :
    Concur (evalSteps d.view options [anyDepth, step .child test predicates] ids)
      (evalSteps d.view options [step .descendant test predicates] ids) := by
  obtain ⟨reached, hmem, hreached⟩ := evalSteps_anyDepth d options ids
  have hpointwise : ∀ c ∈ conditions d.view options predicates, Selection.Pointwise c := by
    rw [conditions_eq_map]
    exact List.forall_mem_map.mpr fun e he => (h e he).1.pointwise (h e he).2
  rw [hreached, evalSteps_single, evalSteps_single, ready_descendant]
  apply Selection.concur_step_of_candidates hpointwise
  intro y
  simp only [Selection.candidates, List.mem_filter, hmem]
  constructor
  · rintro ⟨z, ⟨x, hx, hz⟩, hy, hfits⟩
    exact ⟨x, hx, (hd.mem_descendant_iff_child (hids x hx)).mpr ⟨z, hz, hy⟩, hfits⟩
  · rintro ⟨x, hx, hy, hfits⟩
    obtain ⟨z, hz, hy⟩ := (hd.mem_descendant_iff_child (hids x hx)).mp hy
    exact ⟨z, ⟨x, hx, hz⟩, hy, hfits⟩

end

/-- The two steps that a double slash and a name stand for and the one step to the descendants fail
together or lead to the same nodes, from any nodes of a document, where no predicate asks for a
position or gives a number. -/
theorem concur_double_slash (events : List Event) (options : QueryOptions) (test : NodeTest)
    (predicates : List Expr) (ids : List NodeId) :
    let d := Document.ofEvents events
    (∀ x ∈ ids, x < d.size) →
      (∀ e ∈ predicates, e.PositionFree ∧ e.NeverNumber d.view options) →
      Concur (evalSteps d.view options [anyDepth, step .child test predicates] ids)
        (evalSteps d.view options [step .descendant test predicates] ids) := by
  intro d hids h
  exact concur_steps_down (Document.wellBuilt_ofEvents events) hids h

/-- Elements with something in them, below an element, its attribute and an element inside. -/
theorem concur_double_slash_of_path :
    let d := Document.ofEvents
      [.start "r" [("k", "v")], .start "a" [], .empty "a" [], .close, .close]
    let inside := relative [step .child .node []]
    let slashes := evalSteps d.view {} [anyDepth, step .child (.name "a") [inside]] [3, 2, 1, 3]
    let direct := evalSteps d.view {} [step .descendant (.name "a") [inside]] [3, 2, 1, 3]
    (∀ x ∈ [3, 2, 1, 3], x < d.size) ∧
      (inside.PositionFree ∧ inside.NeverNumber d.view {}) ∧
      slashes = .ok [3] ∧ direct = .ok [3] ∧ Concur slashes direct := by
  have hinside : (relative [step .child .node []]).PositionFree :=
    positionFree_relative (List.forall_mem_singleton.mpr positionFree_step)
  have hids : ∀ x ∈ [3, 2, 1, 3], x < (Document.ofEvents
      [.start "r" [("k", "v")], .start "a" [], .empty "a" [], .close, .close]).size := by decide
  intro d inside slashes direct
  have hconcur : Concur slashes direct := concur_double_slash _ {} (.name "a") [inside] _ hids
    (List.forall_mem_singleton.mpr ⟨hinside, neverNumber_relative⟩)
  have hdirect : direct = .ok [3] := by decide +kernel
  exact ⟨hids, ⟨hinside, neverNumber_relative⟩, (concur_iff.mp hconcur _).mpr hdirect, hdirect, hconcur⟩

end TreeQuery
