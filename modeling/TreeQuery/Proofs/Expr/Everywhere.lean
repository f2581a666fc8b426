import TreeQuery.Expr.Basic

/-!
Properties of an expression at every depth, and the one that both languages keep: a path leads on
by steps.
-/
namespace TreeQuery.Expr

theorem sizeOf_lt_of_mem_children {e part : Expr} (h : part ∈ e.children) :
    sizeOf part < sizeOf e := by
  cases e with
  | absolute parts | relative parts | step _ _ parts | call _ parts =>
      have hlt := List.sizeOf_lt_of_mem (show part ∈ parts from h)
      simp only [absolute.sizeOf_spec, relative.sizeOf_spec, step.sizeOf_spec, call.sizeOf_spec]
      omega
  | filter primary parts =>
      rw [filter.sizeOf_spec]
      rcases List.mem_cons.mp h with rfl | h
      · omega
      · have hlt := List.sizeOf_lt_of_mem h
        omega
  | binary _ left right | union left right =>
      simp only [children, List.mem_cons, List.not_mem_nil, or_false] at h
      simp only [binary.sizeOf_spec, union.sizeOf_spec]
      rcases h with rfl | rfl <;> omega
  | negate operand =>
      obtain rfl := List.mem_singleton.mp h
      rw [negate.sizeOf_spec]
      omega
  | string | number | reference => cases h

/-- Induction on expressions: what holds of all direct parts holds of the whole. -/
theorem induction_on_children {motive : Expr → Prop}
    (h : ∀ e, (∀ part ∈ e.children, motive part) → motive e) (e : Expr) : motive e :=
  h e fun part _hpart => induction_on_children h part
termination_by sizeOf e
decreasing_by exact sizeOf_lt_of_mem_children _hpart

/-- An expression and all its parts, at every depth, have a property. -/
inductive Everywhere (P : Expr → Prop) : Expr → Prop where
  | intro {e : Expr} (here : P e) (parts : ∀ part ∈ e.children, Everywhere P part) :
      Everywhere P e

theorem everywhere_iff {P : Expr → Prop} {e : Expr} :
    e.Everywhere P ↔ P e ∧ ∀ part ∈ e.children, part.Everywhere P := by
  constructor
  · rintro ⟨here, parts⟩
    exact ⟨here, parts⟩
  · rintro ⟨here, parts⟩
    exact .intro here parts

theorem Everywhere.imp {P Q : Expr → Prop} {e : Expr} (h : e.Everywhere P)
    (hPQ : ∀ part, P part → Q part) : e.Everywhere Q := by
  induction h with
  | intro here _ ih => exact .intro (hPQ _ here) ih

/-- Induction that reaches the parts of parts, too: the predicates of a step are evaluated for the
path that the step is a part of. -/
theorem Everywhere.induction_deep {P motive : Expr → Prop}
    (h : ∀ e, e.Everywhere P → (∀ part ∈ e.children, motive part) →
      (∀ part ∈ e.children, ∀ inner ∈ part.children, motive inner) → motive e)
    {e : Expr} (he : e.Everywhere P) : motive e := by
  suffices hboth : motive e ∧ ∀ part ∈ e.children, motive part from hboth.1
  induction he with
  | @intro e here parts ih =>
      have hparts : ∀ part ∈ e.children, motive part := fun part hp => (ih part hp).1
      exact ⟨h e (.intro here parts) hparts fun part hp => (ih part hp).2, hparts⟩

/-- All parts of a path from the document node are steps, and so are the parts of another path
behind its first. A part that is alone is a step. -/
def LeadsBySteps : Expr → Prop
  | absolute parts => ∀ part ∈ parts, part.isStep
  | relative [part] => part.isStep
  | relative parts => ∀ part ∈ parts.tail, part.isStep
  | _ => True

theorem LeadsBySteps.tail {first : Expr} {rest : List Expr}
    (h : LeadsBySteps (relative (first :: rest))) : ∀ part ∈ rest, part.isStep := by
  cases rest with
  | nil => simp
  | cons second rest => exact h

theorem LeadsBySteps.first {first : Expr} {rest : List Expr}
    (h : LeadsBySteps (relative (first :: rest))) (hfirst : ¬ first.isStep) : rest ≠ [] := by
  rintro rfl
  exact hfirst h

/-! ## Well-formed expressions -/

/-- All paths in an expression lead on by steps. -/
def WellFormed (e : Expr) : Prop := e.Everywhere LeadsBySteps

theorem wellFormed_iff {e : Expr} :
    e.WellFormed ↔ LeadsBySteps e ∧ ∀ part ∈ e.children, part.WellFormed := everywhere_iff

theorem wellFormed_iff_children {e : Expr} (h : LeadsBySteps e) :
    e.WellFormed ↔ ∀ part ∈ e.children, part.WellFormed := wellFormed_iff.trans (and_iff_right h)

theorem forall_mem_pair {P : Expr → Prop} {left right : Expr} :
    (∀ e ∈ [left, right], P e) ↔ P left ∧ P right :=
  List.forall_mem_cons.trans (and_congr_right fun _ => List.forall_mem_singleton)

section
variable {left right primary operand : Expr} {es : List Expr}

@[simp] theorem wellFormed_absolute :
    (absolute es).WellFormed ↔ ∀ part ∈ es, part.isStep ∧ part.WellFormed := by
  rw [wellFormed_iff]
  exact ⟨fun h part hp => ⟨h.1 part hp, h.2 part hp⟩,
    fun h => ⟨fun part hp => (h part hp).1, fun part hp => (h part hp).2⟩⟩

@[simp] theorem wellFormed_step {axis : Axis} {test : NodeTest} :
    (step axis test es).WellFormed ↔ ∀ e ∈ es, e.WellFormed :=
  wellFormed_iff_children (e := step axis test es) trivial

@[simp] theorem wellFormed_filter :
    (filter primary es).WellFormed ↔ primary.WellFormed ∧ ∀ e ∈ es, e.WellFormed :=
  (wellFormed_iff_children (e := filter primary es) trivial).trans List.forall_mem_cons

@[simp] theorem wellFormed_binary {op : BinaryOp} :
    (binary op left right).WellFormed ↔ left.WellFormed ∧ right.WellFormed :=
  (wellFormed_iff_children (e := binary op left right) trivial).trans forall_mem_pair

@[simp] theorem wellFormed_union :
    (union left right).WellFormed ↔ left.WellFormed ∧ right.WellFormed :=
  (wellFormed_iff_children (e := union left right) trivial).trans forall_mem_pair

@[simp] theorem wellFormed_negate : (negate operand).WellFormed ↔ operand.WellFormed :=
  (wellFormed_iff_children (e := negate operand) trivial).trans List.forall_mem_singleton

@[simp] theorem wellFormed_call {name : String} :
    (call name es).WellFormed ↔ ∀ e ∈ es, e.WellFormed :=
  wellFormed_iff_children (e := call name es) trivial

@[simp] theorem wellFormed_string {text : String} : (string text).WellFormed :=
  (wellFormed_iff_children (e := string text) trivial).mpr (List.forall_mem_nil _)

@[simp] theorem wellFormed_number {value : Number} : (number value).WellFormed :=
  (wellFormed_iff_children (e := number value) trivial).mpr (List.forall_mem_nil _)

@[simp] theorem wellFormed_reference {name : String} : (reference name).WellFormed :=
  (wellFormed_iff_children (e := reference name) trivial).mpr (List.forall_mem_nil _)

/-- A path of steps only. -/
theorem wellFormed_steps (h : ∀ part ∈ es, part.isStep ∧ part.WellFormed) :
    (relative es).WellFormed := by
  rw [wellFormed_iff]
  refine ⟨?_, fun part hp => (h part hp).2⟩
  match es with
  | [] => simp [LeadsBySteps]
  | [part] => exact (h part (by simp)).1
  | first :: second :: rest => exact fun part hp => (h part (List.mem_of_mem_tail hp)).1

/-- A path with a step behind its first part. -/
theorem wellFormed_relative {first : Expr} (hfirst : first.WellFormed)
    (h : ∀ part ∈ es, part.isStep ∧ part.WellFormed) (hne : es ≠ []) :
    (relative (first :: es)).WellFormed := by
  rw [wellFormed_iff]
  cases es with
  | nil => exact absurd rfl hne
  | cons second rest =>
      refine ⟨fun part hp => (h part hp).1, fun part hp => ?_⟩
      rcases List.mem_cons.mp hp with rfl | hp
      · exact hfirst
      · exact (h part hp).2

end

end TreeQuery.Expr
