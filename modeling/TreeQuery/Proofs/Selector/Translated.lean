import TreeQuery.Proofs.Expr.Edits
import TreeQuery.Proofs.Expr.Everywhere
import TreeQuery.Proofs.Outcome
import TreeQuery.Selector.Expression

/-!
What selectors become is well-formed: a compound becomes one step, its filters become conditions
that are pushed to the step one by one, and a chain becomes a path of steps.
-/
namespace TreeQuery.Selector

open TreeQuery.Expr

/-! ## Building blocks -/

@[simp] theorem wellFormed_stepPath (axis : Axis) (test : NodeTest) :
    (stepPath axis test).WellFormed :=
  wellFormed_steps (by simp [isStep])

@[simp] theorem wellFormed_integer (i : Int) : (integer i).WellFormed := wellFormed_number

@[simp] theorem wellFormed_attrEquals (name text : String) : (attrEquals name text).WellFormed := by
  simp [attrEquals]

/-! ## Attributes and positions -/

theorem AttrOp.wellFormed_condition {attr : Expr} (op : AttrOp) (text : String)
    (h : attr.WellFormed) : (op.condition attr text).WellFormed := by
  cases op <;> simp [AttrOp.condition, h]

theorem AttrSelector.wellFormed_condition (selector : AttrSelector) :
    selector.condition.WellFormed := by
  rw [AttrSelector.condition]
  split
  · simp
  · exact AttrOp.wellFormed_condition _ _ (by simp)

@[simp] theorem wellFormed_countOf (axis : Axis) (test : NodeTest) :
    (countOf axis test).WellFormed := by
  simp [countOf]

theorem Nth.wellFormed_condition {position : Expr} (series : Nth) (h : position.WellFormed) :
    (series.condition position).WellFormed := by
  rw [Nth.condition]
  split
  · simp [h]
  · have hdistance : (if series.b < 0 then binary .add position (integer (-series.b))
        else binary .sub position (integer series.b)).WellFormed := by
      split <;> simp [h]
    simp [h, hdistance]

theorem Structural.wellFormed_condition (test : NodeTest) (s : Structural) :
    (s.condition test).WellFormed := by
  cases s with
  | nth kind series => cases kind <;> exact Nth.wellFormed_condition _ (by simp [positionOn])
  | _ => simp [Structural.condition, noneOn, noneBeside]

/-! ## Compounds and chains -/

theorem Filter.conditions_eq_map (test : NodeTest) (filters : List Filter) :
    Filter.conditions test filters = filters.map (·.condition test) := by
  induction filters with
  | nil => rfl
  | cons f fs ih => rw [Filter.conditions, ih, List.map_cons]

/-- The step of a compound is the step to its elements, with the conditions of its filters pushed
one by one. -/
theorem Compound.step_eq_foldl_pushChild (axis : Axis) (compound : Compound) :
    let test := elementTest compound.element
    compound.step axis =
      (compound.filters.map (·.condition test)).foldl pushChild (.step axis test []) := by
  intro test
  rw [foldl_pushChild_step, ← Filter.conditions_eq_map]
  rfl

mutual

theorem Filter.wellFormed_condition (test : NodeTest) :
    (f : Filter) → (f.condition test).WellFormed
  | .className text => by simp [Filter.condition]
  | .id text => by simp [Filter.condition]
  | .attr selector => by
      simp only [Filter.condition]
      exact selector.wellFormed_condition
  | .structural s => by
      simp only [Filter.condition]
      exact s.wellFormed_condition test
  | .not element filters => by
      have hfilters := Filter.wellFormed_conditions (elementTest element) filters
      simp only [Filter.condition, wellFormed_call, List.mem_singleton, forall_eq]
      exact wellFormed_steps (by simpa [isStep] using hfilters)

theorem Filter.wellFormed_conditions (test : NodeTest) :
    (fs : List Filter) → ∀ e ∈ Filter.conditions test fs, e.WellFormed
  | [] => by simp [Filter.conditions]
  | f :: fs => by
      simp only [Filter.conditions, List.forall_mem_cons]
      exact ⟨f.wellFormed_condition test, Filter.wellFormed_conditions test fs⟩

end

theorem Compound.wellFormed_step (axis : Axis) (compound : Compound) :
    (compound.step axis).isStep ∧ (compound.step axis).WellFormed :=
  ⟨rfl, Expr.wellFormed_step.mpr (Filter.wellFormed_conditions _ _)⟩

theorem Combinator.wellFormed_steps (combinator : Combinator) (compound : Compound) :
    ∀ part ∈ combinator.steps compound, part.isStep ∧ part.WellFormed := by
  cases combinator with
  | child => simpa [Combinator.steps] using compound.wellFormed_step .child
  | descendant =>
      simpa [Combinator.steps, isStep] using compound.wellFormed_step .child

theorem Complex.wellFormed_toExpr (selector : Complex) : selector.toExpr.WellFormed := by
  refine Expr.wellFormed_steps fun part hp => ?_
  rcases List.mem_cons.mp hp with rfl | hp
  · exact selector.head.wellFormed_step .child
  · obtain ⟨⟨combinator, compound⟩, _, hp⟩ := List.mem_flatMap.mp hp
    exact combinator.wellFormed_steps compound part hp

theorem wellFormed_foldl_union {e : Expr} {es : List Expr} (h : e.WellFormed)
    (hes : ∀ e ∈ es, e.WellFormed) : (es.foldl Expr.union e).WellFormed := by
  induction es generalizing e with
  | nil => exact h
  | cons e' es ih =>
      exact ih (wellFormed_union.mpr ⟨h, hes e' (by simp)⟩) fun e he => hes e (by simp [he])

theorem wellFormed_toExpr (selectors : SelectorList) : (toExpr selectors).WellFormed := by
  cases selectors with
  | nil => exact Expr.wellFormed_steps (by simp)
  | cons selector selectors =>
      refine wellFormed_foldl_union selector.wellFormed_toExpr fun e he => ?_
      obtain ⟨selector, _, rfl⟩ := List.mem_map.mp he
      exact selector.wellFormed_toExpr

theorem wellFormed_of_parseToExpr {text : String} {e : Expr} (h : parseToExpr text = .ok e) :
    e.WellFormed := by
  rw [parseToExpr] at h
  cases hparse : parse text with
  | error err => simp [hparse, Except.map] at h
  | ok selectors =>
      simp only [hparse, Except.map, Except.ok.injEq] at h
      subst h
      exact wellFormed_toExpr selectors

end TreeQuery.Selector
