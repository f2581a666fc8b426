import TreeQuery.Proofs.Eval.Steady
import TreeQuery.Proofs.Expr.Proper

/-!
Paths without paths in front of them. Where a path starts from another path, the steps of both in
one path lead to the same nodes.
-/
namespace TreeQuery.Expr

/-! ## Flattening -/

/-- More steps behind an expression: a path is led on, anything else starts a new one. -/
def lead : Expr → List Expr → Expr
  | absolute parts, more => absolute (parts ++ more)
  | relative parts, more => relative (parts ++ more)
  | e, more => relative (e :: more)

mutual

/-- The expression with all paths, at every depth, led on in one. -/
def flat : Expr → Expr
  | absolute parts => absolute (flatAll parts)
  | relative parts => flatPath parts
  | step axis test predicates => step axis test (flatAll predicates)
  | filter primary predicates => filter (flat primary) (flatAll predicates)
  | binary op left right => binary op (flat left) (flat right)
  | union left right => union (flat left) (flat right)
  | negate operand => negate (flat operand)
  | call name args => call name (flatAll args)
  | string text => string text
  | number value => number value
  | reference name => reference name

def flatPath : List Expr → Expr
  | [] => relative []
  | first :: rest => lead (flat first) (flatAll rest)

def flatAll : List Expr → List Expr
  | [] => []
  | e :: es => flat e :: flatAll es

end

theorem flatAll_eq_map (es : List Expr) : flatAll es = es.map flat := by
  induction es with
  | nil => rfl
  | cons e es ih => rw [flatAll, ih, List.map_cons]

theorem isStep_lead (e : Expr) (more : List Expr) : (lead e more).isStep = false := by
  cases e <;> rfl

theorem isStep_flat (e : Expr) : e.flat.isStep = e.isStep := by
  cases e with
  | relative parts =>
      cases parts with
      | nil => rfl
      | cons first rest => exact isStep_lead _ _
  | _ => rfl

/-! ## Evaluation -/

variable {v : View} {options : QueryOptions}

theorem evalSteps_append {first : List Expr} (h : ∀ part ∈ first, part.isStep = true)
    (more : List Expr) (ids : List NodeId) :
    evalSteps v options (first ++ more) ids =
      evalSteps v options first ids >>= evalSteps v options more := by
  induction first generalizing ids with
  | nil => rw [List.nil_append, evalSteps, ok_bind]
  | cons part parts ih =>
      have hpart := h part List.mem_cons_self
      cases part <;> simp only [isStep, Bool.false_eq_true] at hpart
      rw [List.cons_append, evalSteps_cons, evalSteps_cons, bind_assoc]
      congr 1
      exact funext fun reached => ih (fun part hp => h part (List.mem_cons_of_mem _ hp)) reached

/-- A path can be led on: its parts are steps, and it has a first one where it starts anywhere. -/
def Leading : Expr → Prop
  | absolute parts => ∀ part ∈ parts, part.isStep = true
  | relative parts => ∃ first rest, parts = first :: rest ∧ ∀ part ∈ rest, part.isStep = true
  | _ => True

theorem eval_lead {e : Expr} (h : e.Leading) (more : List Expr) (focus : Focus) :
    (lead e more).eval v options focus = (do
      let ids ← (← e.eval v options focus).toNodes
      .ok (.nodes (← evalSteps v options more ids))) := by
  cases e with
  | absolute parts =>
      simp only [lead, eval, evalSteps_append h, bind_assoc, ok_bind, Value.toNodes]
  | relative parts =>
      obtain ⟨first, rest, rfl, hrest⟩ := h
      simp only [lead, List.cons_append, eval, evalPath, evalSteps_append hrest, bind_assoc,
        ok_bind, Value.toNodes]
  | _ => simp only [lead, eval, evalPath, bind_assoc]

theorem leading_lead {e : Expr} {more : List Expr} (h : e.Leading)
    (hmore : ∀ part ∈ more, part.isStep = true) : (lead e more).Leading := by
  cases e with
  | absolute parts => exact List.forall_mem_append.mpr ⟨h, hmore⟩
  | relative parts =>
      obtain ⟨first, rest, rfl, hrest⟩ := h
      exact ⟨first, rest ++ more, rfl, List.forall_mem_append.mpr ⟨hrest, hmore⟩⟩
  | _ => exact ⟨_, _, rfl, hmore⟩

theorem isStep_flatAll {es : List Expr} (h : ∀ part ∈ es, part.isStep = true) :
    ∀ part ∈ flatAll es, part.isStep = true := by
  rw [flatAll_eq_map]
  simpa [isStep_flat] using h

theorem leading_flat {e : Expr} (h : e.Everywhere Proper) : e.flat.Leading := by
  induction e using induction_on_children with
  | h e ih =>
      obtain ⟨hproper, hparts⟩ := everywhere_iff.mp h
      cases e with
      | absolute parts => exact isStep_flatAll hproper
      | relative parts =>
          obtain ⟨first, rest, rfl, hrest, _⟩ := hproper
          have hfirst := ih first List.mem_cons_self (hparts first List.mem_cons_self)
          exact leading_lead hfirst (isStep_flatAll hrest)
      | _ => trivial

/-- Both expressions have the same outcome everywhere. -/
def Same (v : View) (options : QueryOptions) (e e' : Expr) : Prop :=
  ∀ focus, e.eval v options focus = e'.eval v options focus

theorem conditions_flatAll (es : List Expr) (h : ∀ e ∈ es, Same v options e.flat e) :
    conditions v options (flatAll es) = conditions v options es := by
  rw [conditions_eq_map, conditions_eq_map, flatAll_eq_map, List.map_map]
  exact List.map_congr_left fun e he => funext (h e he)

theorem evalArgs_flatAll (es : List Expr) (h : ∀ e ∈ es, Same v options e.flat e) (focus : Focus) :
    evalArgs v options (flatAll es) focus = evalArgs v options es focus := by
  induction es with
  | nil => rfl
  | cons e es ih =>
      obtain ⟨he, hes⟩ := List.forall_mem_cons.mp h
      simp only [flatAll, evalArgs, he focus, ih hes]

theorem evalSteps_flatAll {es : List Expr} (hsteps : ∀ part ∈ es, part.isStep = true)
    (h : ∀ part ∈ es, ∀ e ∈ part.children, Same v options e.flat e) (ids : List NodeId) :
    evalSteps v options (flatAll es) ids = evalSteps v options es ids := by
  induction es generalizing ids with
  | nil => rfl
  | cons part parts ih =>
      obtain ⟨hpart, hparts⟩ := List.forall_mem_cons.mp hsteps
      obtain ⟨hchildren, h'⟩ := List.forall_mem_cons.mp h
      cases part <;> simp only [isStep, Bool.false_eq_true] at hpart
      rename_i axis test predicates
      rw [flatAll, flat, evalSteps_cons, evalSteps_cons, conditions_flatAll predicates hchildren]
      congr 1
      exact funext (ih hparts h')

/-- What is flat leads to the same outcome. The parts of a path are compared as steps, so that the
induction also goes to the parts of the parts. -/
theorem same_flat {e : Expr} (h : e.Everywhere Proper) : Same v options e.flat e := by
  suffices hall : Same v options e.flat e ∧ ∀ part ∈ e.children, Same v options part.flat part from
    hall.1
  induction e using induction_on_children with
  | h e ih =>
      obtain ⟨hproper, hparts⟩ := everywhere_iff.mp h
      have hsame : ∀ part ∈ e.children, Same v options part.flat part :=
        fun part hp => (ih part hp (hparts part hp)).1
      have hchildren : ∀ part ∈ e.children, ∀ e' ∈ part.children, Same v options e'.flat e' :=
        fun part hp => (ih part hp (hparts part hp)).2
      refine ⟨fun focus => ?_, hsame⟩
      cases e with
      | absolute parts => rw [flat, eval, eval, evalSteps_flatAll hproper hchildren]
      | relative parts =>
          obtain ⟨first, rest, rfl, hrest, _⟩ := hproper
          have hleading := leading_flat (hparts first List.mem_cons_self)
          obtain ⟨hfirst, _⟩ := List.forall_mem_cons.mp hsame
          obtain ⟨_, hrest'⟩ := List.forall_mem_cons.mp hchildren
          rw [flat, flatPath, eval_lead hleading, hfirst focus]
          simp only [evalSteps_flatAll hrest hrest', eval, evalPath, bind_assoc]
      | step axis test predicates => rw [flat, eval, eval, conditions_flatAll predicates hsame]
      | filter primary predicates =>
          obtain ⟨hprimary, hpredicates⟩ := List.forall_mem_cons.mp hsame
          rw [flat, eval, eval, hprimary focus, conditions_flatAll predicates hpredicates]
      | binary op left right =>
          have hleft := hsame left (by simp [children]) focus
          have hright := hsame right (by simp [children]) focus
          cases op <;> simp only [flat, eval, hleft, hright]
      | union left right =>
          have hleft := hsame left (by simp [children]) focus
          have hright := hsame right (by simp [children]) focus
          simp only [flat, eval, hleft, hright]
      | negate operand => rw [flat, eval, eval, hsame operand (by simp [children]) focus]
      | call name args => simp only [flat, eval, evalArgs_flatAll args hsame]
      | string | number | reference => rfl

end TreeQuery.Expr
