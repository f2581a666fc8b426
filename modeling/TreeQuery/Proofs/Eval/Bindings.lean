import TreeQuery.Proofs.Eval.Order
import TreeQuery.Proofs.Eval.Settings
import TreeQuery.Tree.Builder

/-!
Queries that do not go along the axis of namespace bindings. They have the same outcome on trees
that differ in nothing but bindings, as an expression and as a program. The minimal view of a
document is such a tree.
-/
namespace TreeQuery

/-! ## Trees with other bindings -/

namespace View

/-- The same tree with other bindings. -/
def withBindings (v : View) (bindings : NodeId → List NodeId) : View := { v with bindings }

variable (v : View) (bindings : NodeId → List NodeId)

theorem below_withBindings (n : Nat) (x : NodeId) (rest : List NodeId) :
    (v.withBindings bindings).below n x rest = v.below n x rest := by
  induction n generalizing x rest with
  | zero => rfl
  | succ n ih =>
      simp only [below, ih]
      rfl

@[simp] theorem descendants_withBindings :
    (v.withBindings bindings).descendants = v.descendants :=
  funext fun id => v.below_withBindings bindings v.size id []

@[simp] theorem stringValue_withBindings :
    (v.withBindings bindings).stringValue = v.stringValue := by
  funext id
  rw [stringValue, descendants_withBindings]
  rfl

theorem along_withBindings {axis : Axis} (h : axis ≠ .namespaces) :
    (v.withBindings bindings).along axis = v.along axis := by
  have hbehind : (v.withBindings bindings).behind = v.behind := by
    funext id
    rw [behind, descendants_withBindings]
    rfl
  funext id
  cases axis with
  | namespaces => exact absurd rfl h
  | descendant => simp only [along, descendants_withBindings]
  | descendantOrSelf =>
      simp only [along, descendants_withBindings]
      rfl
  | following =>
      simp only [along, following, behindAll, descendants_withBindings, hbehind]
      rfl
  | preceding =>
      simp only [along, preceding, descendants_withBindings]
      rfl
  | _ => rfl

end View

variable (v : View) (bindings : NodeId → List NodeId) (options : QueryOptions)

/-! ## Values and functions -/

namespace Value

@[simp] theorem toString_withBindings (value : Value) :
    value.toString (v.withBindings bindings) = value.toString v := by
  simp only [toString, View.stringValue_withBindings]

@[simp] theorem toNumber_withBindings (value : Value) :
    value.toNumber (v.withBindings bindings) = value.toNumber v := by
  simp only [toNumber, toString_withBindings]

@[simp] theorem negated_withBindings (value : Value) :
    value.negated (v.withBindings bindings) = value.negated v := by
  simp only [negated, toNumber_withBindings]

@[simp] theorem equal_withBindings (left right : Value) :
    equal (v.withBindings bindings) left right = equal v left right := by
  simp only [equal, unify, scalar, toString_withBindings, toNumber_withBindings]

end Value

@[simp] theorem BinaryOp.apply_withBindings (op : BinaryOp) (left right : Value) :
    op.apply (v.withBindings bindings) left right = op.apply v left right := by
  simp only [apply, Value.toNumber_withBindings, Value.equal_withBindings]

@[simp] theorem Function.call_withBindings (f : Function) (focus : Focus) (args : List Value) :
    f.call (v.withBindings bindings) focus args = f.call v focus args := by
  rw [call, call, apply.eq_def, apply.eq_def]
  simp only [joinedText, elementsById, targetText, sumOf, Value.toString_withBindings,
    Value.toNumber_withBindings, View.stringValue_withBindings, View.descendants_withBindings]
  rfl

/-! ## Queries -/

theorem Selection.candidates_withBindings {axis : Axis} (h : axis ≠ .namespaces)
    (test : ReadyTest) :
    candidates (v.withBindings bindings) options axis test = candidates v options axis test := by
  funext id
  rw [candidates, v.along_withBindings bindings h]
  rfl

/-- Trees with other bindings answer alike along all axes but the one of bindings. -/
theorem alike_withBindings :
    Alike (fun axis test test' => axis ≠ .namespaces ∧ test' = test) (fun _ => True) v
      (v.withBindings bindings) options options where
  rounding := rfl
  value _ _ := rfl
  candidates axis test test' h := by
    obtain ⟨haxis, rfl⟩ := h
    exact Selection.candidates_withBindings v bindings options haxis (test'.ready axis)
  apply op left right := op.apply_withBindings v bindings left right
  negated value := value.negated_withBindings v bindings
  call f focus args := f.call_withBindings v bindings focus args

namespace Expr

/-- The axis that an expression goes along, when it is a step. -/
def axis? : Expr → Option Axis
  | step axis _ _ => some axis
  | _ => none

/-- No step in an expression goes along an axis. -/
def Avoids (axis : Axis) (e : Expr) : Prop := e.Everywhere fun part => part.axis? ≠ some axis

theorem Avoids.paired {axis : Axis} {e : Expr} (h : e.Avoids axis) :
    Paired (SameForm (fun other test test' => other ≠ axis ∧ test' = test) fun _ => True) e e := by
  refine Paired.of_everywhere (f := id) h (fun part hpart => .refl ?_ fun _ _ => trivial)
    fun part => (List.map_id _).symm
  rintro other test es rfl
  exact ⟨fun heq => hpart (congrArg some heq), rfl⟩

variable {v bindings options} {e : Expr}

theorem eval_withBindings (h : e.Avoids .namespaces) :
    SameValue v (v.withBindings bindings) options options e e :=
  eval_congr (alike_withBindings v bindings options) h.paired

theorem sameOps_of_avoids (h : e.Avoids .namespaces) :
    SameOps v (v.withBindings bindings) options options e e :=
  sameOps_congr (alike_withBindings v bindings options) h.paired

end Expr

/-! ## The minimal view -/

/-- The minimal view of a document follows the same links from one child to the next. -/
theorem Document.minimal_eq_withBindings (d : Document) :
    d.view.minimal = d.view.withBindings fun _ => [] := rfl

/-- At every focus, also of a node that is not there, an expression without the axis of bindings and
its program have the same outcome on a document and on its minimal view. -/
theorem outcome_minimal (events : List Event) (e : Expr) (h : e.Avoids .namespaces)
    (options : QueryOptions) (focus : Focus) :
    let v := (Document.ofEvents events).view
    e.eval v.minimal options focus = e.eval v options focus ∧
      e.compile.run v.minimal options focus = e.compile.run v options focus := by
  intro v
  have hminimal : v.minimal = v.withBindings fun _ => [] := Document.minimal_eq_withBindings _
  rw [hminimal]
  exact ⟨congrFun (Expr.eval_withBindings h) focus,
    congrFun (Expr.sameOps_of_avoids h).run focus⟩

theorem outcome_minimal_of_ancestors :
    let v := (Document.ofEvents [.start "a" [("xmlns", "u"), ("id", "x")], .empty "b" []]).view
    let e := Expr.relative [.step .ancestorOrSelf .node [.call "id" [.string "x"]]]
    e.Avoids .namespaces ∧ e.eval v.minimal {} { node := 4 } = .ok (.nodes [0, 1, 4]) ∧
      e.compile.run v.minimal {} { node := 4 } = .ok (.nodes [0, 1, 4]) ∧
      e.eval v.minimal {} { node := 9 } = e.eval v {} { node := 9 } := by
  intro v e
  have htext : (Expr.string "x").Avoids .namespaces := .intro (by decide) (by simp [Expr.children])
  have hcall : (Expr.call "id" [.string "x"]).Avoids .namespaces :=
    .intro (by decide) (List.forall_mem_singleton.mpr htext)
  have h : e.Avoids .namespaces :=
    .intro (by decide) (List.forall_mem_singleton.mpr
      (.intro (by decide) (List.forall_mem_singleton.mpr hcall)))
  have hsame := outcome_minimal [.start "a" [("xmlns", "u"), ("id", "x")], .empty "b" []] e h {}
  let step (conditions : List Condition) : Except QueryError Value := do
    .ok (.nodes (← Selection.step v {} .ancestorOrSelf .node conditions [4]))
  have hstep : ∀ conditions,
      Selection.stepFromEach v {} .ancestorOrSelf .node conditions [4] = .ok [4, 1, 0] →
        step conditions = .ok (.nodes [0, 1, 4]) := by
    intro conditions hfound
    have hordered : Ascending [0, 1, 4] := by decide
    simp only [step]
    rw [Selection.step_of_found _ hfound hordered (by decide) (by decide), ok_bind]
  have heval : e.eval v {} { node := 4 } = .ok (.nodes [0, 1, 4]) :=
    hstep (Expr.conditions v {} [.call "id" [.string "x"]]) (by decide +kernel)
  have hrun : e.compile.run v {} { node := 4 } = .ok (.nodes [0, 1, 4]) :=
    hstep (Program.conditions v {} [.mk [.string "x", .call .id 1]]) (by decide +kernel)
  exact ⟨h, (hsame { node := 4 }).1.trans heval, (hsame { node := 4 }).2.trans hrun,
    (hsame { node := 9 }).1⟩

end TreeQuery
