import TreeQuery.Eval.Expr
import TreeQuery.Program.Compile
import TreeQuery.Program.Run
import TreeQuery.Proofs.Expr.Paired
import TreeQuery.Proofs.Outcome

/-!
Expressions of one form in settings that answer alike. A setting is a tree and options. What an
evaluation asks of it are the nodes that steps find, the values of variables, conversions of values
and calls of functions. Where two settings give the same answers for two expressions of one form,
the outcomes are the same, for the expressions as for their programs.
-/
namespace TreeQuery

/-- Two settings give the same answers to what is asked for related tests and given variables. -/
structure Alike (tests : Axis → NodeTest → NodeTest → Prop) (names : String → Prop)
    (v v' : View) (options options' : QueryOptions) : Prop where
  rounding : options'.rounding = options.rounding
  value : ∀ name, names name → options'.value name = options.value name
  candidates : ∀ axis test test', tests axis test test' →
    Selection.candidates v' options' axis (test'.ready axis) =
      Selection.candidates v options axis (test.ready axis)
  apply : ∀ (op : BinaryOp) left right, op.apply v' left right = op.apply v left right
  negated : ∀ value : Value, value.negated v' = value.negated v
  call : ∀ (f : Function) focus args, f.call v' focus args = f.call v focus args

variable {tests : Axis → NodeTest → NodeTest → Prop} {names : String → Prop} {v v' : View}
  {options options' : QueryOptions}

/-- A step along the axis of related tests selects the same, whatever its predicates say. -/
theorem Alike.step_eq (hs : Alike tests names v v' options options') {axis : Axis}
    {test test' : NodeTest} (htest : tests axis test test') (conditions : List Condition) :
    Selection.step v' options' axis (test'.ready axis) conditions =
      Selection.step v options axis (test.ready axis) conditions := by
  have heach : ∀ ids,
      Selection.stepFromEach v' options' axis (test'.ready axis) conditions ids =
        Selection.stepFromEach v options axis (test.ready axis) conditions ids := by
    intro ids
    induction ids with
    | nil => rfl
    | cons id ids ih =>
        rw [Selection.stepFromEach, Selection.stepFromEach, hs.candidates axis test test' htest,
          hs.rounding, ih]
  funext ids
  rw [Selection.step, Selection.step, heach]

/-! ## Expressions -/

namespace Expr

variable {e e' : Expr} {es es' : List Expr}

variable (v v' options options') in
/-- Two expressions have the same outcome, each in its setting. -/
abbrev SameValue (e e' : Expr) : Prop := e'.eval v' options' = e.eval v options

theorem conditions_congr (h : List.Forall₂ (SameValue v v' options options') es es') :
    conditions v' options' es' = conditions v options es := by
  induction h with
  | nil => rfl
  | cons he _ ih => rw [conditions, conditions, he, ih]

theorem evalArgs_congr (h : List.Forall₂ (SameValue v v' options options') es es') :
    evalArgs v' options' es' = evalArgs v options es := by
  induction h with
  | nil => rfl
  | cons he _ ih =>
      funext focus
      rw [evalArgs, evalArgs, he, ih]

variable (hs : Alike tests names v v' options options')
include hs

theorem evalSteps_congr
    (h : List.Forall₂ (fun part part' => SameForm tests names part part' ∧
      List.Forall₂ (SameValue v v' options options') part.children part'.children) es es') :
    evalSteps v' options' es' = evalSteps v options es := by
  induction h with
  | nil => rfl
  | cons hpart _ ih =>
      obtain ⟨hform, hpredicates⟩ := hpart
      funext ids
      cases hform with
      | step htest ps ps' =>
          have hconditions : conditions v' options' ps' = conditions v options ps :=
            conditions_congr hpredicates
          rw [evalSteps, evalSteps, hconditions, hs.step_eq htest, ih]
      | _ => rfl

/-- Expressions of one form have the same outcome in settings that answer alike. -/
theorem eval_congr (h : Paired (SameForm tests names) e e') :
    SameValue v v' options options' e e' := by
  refine Paired.induction_deep (motive := SameValue v v' options options')
    (fun e e' hform hparts hdeep => funext fun focus => ?_) h
  cases hform with
  | absolute es es' =>
      have hsteps : evalSteps v' options' es' = evalSteps v options es := evalSteps_congr hs hdeep
      simp only [eval, hsteps]
  | relative es es' =>
      cases (hdeep : List.Forall₂ _ es es') with
      | nil => rfl
      | @cons first first' rest rest' _ hrest =>
          have hfirst : first'.eval v' options' = first.eval v options :=
            (List.forall₂_cons.mp hparts).1
          have hsteps : evalSteps v' options' rest' = evalSteps v options rest :=
            evalSteps_congr hs hrest
          simp only [eval, evalPath, hfirst, hsteps]
  | step htest es es' =>
      have hconditions : conditions v' options' es' = conditions v options es :=
        conditions_congr hparts
      simp only [eval, hconditions, hs.step_eq htest]
  | filter primary primary' es es' =>
      obtain ⟨hprimary, hpredicates⟩ := List.forall₂_cons.mp hparts
      simp only [eval, hprimary, conditions_congr hpredicates, hs.rounding]
  | binary op left left' right right' =>
      obtain ⟨hleft, hrest⟩ := List.forall₂_cons.mp hparts
      obtain ⟨hright, -⟩ := List.forall₂_cons.mp hrest
      cases op <;> simp only [eval, hleft, hright, hs.apply]
  | union left left' right right' =>
      obtain ⟨hleft, hrest⟩ := List.forall₂_cons.mp hparts
      obtain ⟨hright, -⟩ := List.forall₂_cons.mp hrest
      simp only [eval, hleft, hright]
  | negate operand operand' =>
      obtain ⟨hoperand, -⟩ := List.forall₂_cons.mp hparts
      simp only [eval, hoperand, hs.negated]
  | string text | number value => rfl
  | call name es es' =>
      have hargs : evalArgs v' options' es' = evalArgs v options es := evalArgs_congr hparts
      simp only [eval, hargs, hs.call]
  | reference hname => simp only [eval, hs.value _ hname]

end Expr

/-! ## Programs -/

namespace Program

theorem runOps_append (ops more : List Op) (focus : Focus) (stack : Stack) :
    runOps v options (ops ++ more) focus stack =
      runOps v options ops focus stack >>= runOps v options more focus := by
  induction ops generalizing stack with
  | nil => simp only [List.nil_append, runOps, ok_bind]
  | cons op ops ih => simp only [List.cons_append, runOps, ih, bind_assoc]

variable (v v' options options') in
/-- Two runs of operations do the same, each in its setting. -/
abbrev SameRun (ops ops' : List Op) : Prop := runOps v' options' ops' = runOps v options ops

variable {ops ops' more more' : List Op} {op op' : Op}

theorem SameRun.append (h : SameRun v v' options options' ops ops')
    (hmore : SameRun v v' options options' more more') :
    SameRun v v' options options' (ops ++ more) (ops' ++ more') := by
  funext focus stack
  rw [runOps_append, runOps_append, h, hmore]

theorem sameRun_nil : SameRun v v' options options' [] [] := by
  funext focus stack
  simp only [runOps]

theorem sameRun_single
    (h : ∀ focus stack, op'.run v' options' focus stack = op.run v options focus stack) :
    SameRun v v' options options' [op] [op'] := by
  funext focus stack
  simp only [runOps, h]

theorem SameRun.run (h : SameRun v v' options options' ops ops') :
    (Program.mk ops').run v' options' = (Program.mk ops).run v options := by
  funext focus
  simp only [Program.run, h]

end Program

namespace Expr

open Program (SameRun sameRun_nil sameRun_single)

variable {e e' : Expr} {es es' : List Expr} {ready ready' : List ReadyStep}

variable (v v' options options') in
/-- The operations of two expressions do the same, each in its setting. -/
abbrev SameOps (e e' : Expr) : Prop := SameRun v v' options options' e.compileOps e'.compileOps

theorem conditions_compilePrograms_congr
    (h : List.Forall₂ (SameOps v v' options options') es es') :
    Program.conditions v' options' (compilePrograms es') =
      Program.conditions v options (compilePrograms es) := by
  induction h with
  | nil => simp only [compilePrograms, Program.conditions]
  | cons he _ ih => simp only [compilePrograms, Program.conditions, he.run, ih]

theorem sameRun_compileArgs (h : List.Forall₂ (SameOps v v' options options') es es') :
    SameRun v v' options options' (compileArgs es) (compileArgs es') := by
  induction h with
  | nil => simpa only [compileArgs] using sameRun_nil
  | cons he _ ih =>
      rw [compileArgs, compileArgs]
      exact he.append ih

variable (v v' options options') in
/-- Two ready steps select the same, each in its setting. -/
def SameStep : ReadyStep → ReadyStep → Prop
  | .mk axis test predicates, .mk axis' test' predicates' =>
    Selection.step v' options' axis' test' (Program.conditions v' options' predicates') =
      Selection.step v options axis test (Program.conditions v options predicates)

theorem runAll_congr (h : List.Forall₂ (SameStep v v' options options') ready ready') :
    ReadyStep.runAll v' options' ready' = ReadyStep.runAll v options ready := by
  induction h with
  | nil =>
      funext ids
      simp only [ReadyStep.runAll]
  | @cons s s' _ _ hs _ ih =>
      obtain ⟨axis, test, predicates⟩ := s
      obtain ⟨axis', test', predicates'⟩ := s'
      funext ids
      rw [SameStep] at hs
      simp only [ReadyStep.runAll, hs, ih]

variable (hs : Alike tests names v v' options options')
include hs

theorem sameStep_ready {axis : Axis} {test test' : NodeTest} (htest : tests axis test test')
    (h : List.Forall₂ (SameOps v v' options options') es es') :
    SameStep v v' options options' (.mk axis (test.ready axis) (compilePrograms es))
      (.mk axis (test'.ready axis) (compilePrograms es')) := by
  rw [SameStep, conditions_compilePrograms_congr h, hs.step_eq htest]

theorem sameRun_compileSteps
    (h : List.Forall₂ (fun part part' => SameForm tests names part part' ∧
      List.Forall₂ (SameOps v v' options options') part.children part'.children) es es')
    (hready : List.Forall₂ (SameStep v v' options options') ready ready') :
    SameRun v v' options options' (compileSteps es ready) (compileSteps es' ready') := by
  induction h generalizing ready ready' with
  | nil =>
      cases hready with
      | nil => simpa only [compileSteps] using sameRun_nil
      | cons hfirst hrest =>
          have hall := runAll_congr (List.rel_reverse (.cons hfirst hrest))
          simp only [compileSteps]
          exact sameRun_single fun _ _ => by simp only [Op.run, hall]
  | cons hpart _ ih =>
      obtain ⟨hform, hpredicates⟩ := hpart
      cases hform with
      | step htest es es' =>
          simp only [compileSteps]
          exact ih (.cons (sameStep_ready hs htest hpredicates) hready)
      | _ =>
          simp only [compileSteps]
          exact sameRun_single fun _ _ => by simp only [Op.run]

/-- The operations of expressions of one form do the same in settings that answer alike. -/
theorem sameOps_congr (h : Paired (SameForm tests names) e e') :
    SameOps v v' options options' e e' := by
  have hcontext : SameRun v v' options options' [.context] [.context] :=
    sameRun_single fun _ _ => by simp only [Op.run]
  refine Paired.induction_deep (motive := SameOps v v' options options')
    (fun e e' hform hparts hdeep => ?_) h
  cases hform with
  | absolute es es' =>
      have hroot : SameRun v v' options options' [.root] [.root] :=
        sameRun_single fun _ _ => by simp only [Op.run]
      simp only [SameOps, compileOps]
      exact hroot.append (sameRun_compileSteps hs hdeep .nil)
  | relative es es' =>
      cases (hdeep : List.Forall₂ _ es es') with
      | nil =>
          simp only [SameOps, compileOps]
          exact hcontext.append (sameRun_compileSteps hs .nil .nil)
      | @cons first first' rest rest' hfirst hrest =>
          have hstarts : startsAtFocus (first' :: rest') = startsAtFocus (first :: rest) :=
            hfirst.1.isStep_eq
          simp only [SameOps, compileOps, hstarts]
          split
          · exact hcontext.append (sameRun_compileSteps hs (.cons hfirst hrest) .nil)
          · rw [compileValuePath, compileValuePath]
            exact (List.forall₂_cons.mp hparts).1.append (sameRun_compileSteps hs hrest .nil)
  | @step axis test test' htest es es' =>
      have hstep : SameStep v v' options options' (.mk axis (test.ready axis) (compilePrograms es))
          (.mk axis (test'.ready axis) (compilePrograms es')) := sameStep_ready hs htest hparts
      have hall := runAll_congr (.cons hstep .nil)
      simp only [SameOps, compileOps]
      exact hcontext.append (sameRun_single fun _ _ => by simp only [Op.run, hall])
  | filter primary primary' es es' =>
      obtain ⟨hprimary, hpredicates⟩ := List.forall₂_cons.mp hparts
      simp only [SameOps, compileOps]
      exact hprimary.append (sameRun_single fun _ _ => by
        simp only [Op.run, conditions_compilePrograms_congr hpredicates, hs.rounding])
  | binary op left left' right right' =>
      obtain ⟨hleft, hrest⟩ := List.forall₂_cons.mp hparts
      obtain ⟨hright, -⟩ := List.forall₂_cons.mp hrest
      have hboth : SameRun v v' options options' (left.compileOps ++ right.compileOps ++ [.binary op])
          (left'.compileOps ++ right'.compileOps ++ [.binary op]) :=
        (hleft.append hright).append (sameRun_single fun _ _ => by simp only [Op.run, hs.apply])
      cases op with
      | and | or =>
          simp only [SameOps, compileOps]
          exact hleft.append (sameRun_single fun _ _ => by simp only [Op.run, hright.run])
      | _ => simpa only [SameOps, compileOps] using hboth
  | union left left' right right' =>
      obtain ⟨hleft, hrest⟩ := List.forall₂_cons.mp hparts
      obtain ⟨hright, -⟩ := List.forall₂_cons.mp hrest
      simp only [SameOps, compileOps]
      exact (hleft.append hright).append (sameRun_single fun _ _ => by simp only [Op.run])
  | negate operand operand' =>
      obtain ⟨hoperand, -⟩ := List.forall₂_cons.mp hparts
      simp only [SameOps, compileOps]
      exact hoperand.append (sameRun_single fun _ _ => by simp only [Op.run, hs.negated])
  | string text | number value =>
      simp only [SameOps, compileOps]
      exact sameRun_single fun _ _ => by simp only [Op.run]
  | reference hname =>
      simp only [SameOps, compileOps]
      exact sameRun_single fun _ _ => by simp only [Op.run, hs.value _ hname]
  | call name es es' =>
      have hlength : es'.length = es.length := hparts.length_eq.symm
      simp only [SameOps, compileOps, hlength]
      split
      · exact (sameRun_compileArgs hparts).append (sameRun_single fun _ _ => by
          simp only [Op.run, hs.call])
      · exact sameRun_single fun _ _ => by simp only [Op.run]

end Expr

end TreeQuery
