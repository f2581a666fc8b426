import TreeQuery.Eval.Expr
import TreeQuery.Program.Compile
import TreeQuery.Program.Run
import TreeQuery.Proofs.Expr.Parsed
import TreeQuery.Proofs.Selector.Translated

/-!
A program has the value of the expression that it comes from. The operations of an expression push
its value, whatever stands on the stack before and whatever runs behind them.
-/
namespace TreeQuery

variable {v : View} {options : QueryOptions}

/-! ## Runs of operations -/

@[simp] theorem Program.runOps_nil (focus : Focus) (stack : Stack) :
    Program.runOps v options [] focus stack = .ok stack := by
  simp only [Program.runOps]

theorem Program.runOps_cons (op : Op) (ops : List Op) (focus : Focus) (stack : Stack) :
    Program.runOps v options (op :: ops) focus stack =
      op.run v options focus stack >>= Program.runOps v options ops focus := by
  simp only [Program.runOps]

theorem Stack.popArgs_append (values : List Value) (stack : Stack) :
    Stack.popArgs values.length (values.reverse ++ stack) = (values, stack) := by
  simp [Stack.popArgs, List.take_left', List.drop_left']

/-- Operations push the value of a condition at the focus. -/
def Pushes (v : View) (options : QueryOptions) (ops : List Op) (first : Condition) : Prop :=
  ∀ rest focus stack,
    Program.runOps v options (ops ++ rest) focus stack =
      first focus >>= fun value => Program.runOps v options rest focus (value :: stack)

namespace Pushes

variable {ops more : List Op} {first second : Condition}

theorem of_run {op : Op}
    (h : ∀ focus stack, op.run v options focus stack =
      first focus >>= fun value => .ok (value :: stack)) : Pushes v options [op] first := by
  intro rest focus stack
  rw [List.singleton_append, Program.runOps_cons, h]
  simp only [bind_assoc, ok_bind]

theorem snoc (op : Op) (next : Focus → Value → Except QueryError Value)
    (h : Pushes v options ops first)
    (hop : ∀ focus value stack, op.run v options focus (value :: stack) =
      next focus value >>= fun result => .ok (result :: stack)) :
    Pushes v options (ops ++ [op]) (fun focus => first focus >>= next focus) := by
  intro rest focus stack
  rw [List.append_assoc, h]
  simp only [List.singleton_append, Program.runOps_cons, hop, bind_assoc, ok_bind]

theorem append_snoc (op : Op) (next : Value → Value → Except QueryError Value)
    (h : Pushes v options ops first) (hmore : Pushes v options more second)
    (hop : ∀ focus left right stack, op.run v options focus (right :: left :: stack) =
      next left right >>= fun result => .ok (result :: stack)) :
    Pushes v options (ops ++ more ++ [op])
      (fun focus => first focus >>= fun left => second focus >>= next left) := by
  intro rest focus stack
  rw [List.append_assoc, List.append_assoc, h]
  simp only [hmore _ focus, List.singleton_append, Program.runOps_cons, hop, bind_assoc, ok_bind]

theorem run (h : Pushes v options ops first) (focus : Focus) :
    (Program.mk ops).run v options focus = first focus := by
  have hrun := h [] focus []
  rw [List.append_nil] at hrun
  simp only [Program.run, hrun]
  cases first focus <;> simp [Stack.pop]

end Pushes

/-! ## Parts of expressions -/

namespace Expr

/-- The operations of an expression push its value. -/
abbrev Agrees (v : View) (options : QueryOptions) (e : Expr) : Prop :=
  Pushes v options e.compileOps (e.eval v options)

theorem conditions_compilePrograms {es : List Expr} (h : ∀ e ∈ es, e.Agrees v options) :
    Program.conditions v options (compilePrograms es) = conditions v options es := by
  induction es with
  | nil => simp only [compilePrograms, Program.conditions, conditions]
  | cons e es ih =>
      have he : (Program.mk e.compileOps).run v options = e.eval v options :=
        funext (h e (by simp)).run
      simp only [compilePrograms, Program.conditions, conditions, he]
      rw [ih fun e he => h e (by simp [he])]

/-- The steps in front of the first part that is none. -/
def readySteps : List Expr → List ReadyStep
  | step axis test predicates :: rest =>
    .mk axis (test.ready axis) (compilePrograms predicates) :: readySteps rest
  | _ => []

theorem compileSteps_eq {parts : List Expr} (h : ∀ part ∈ parts, part.isStep)
    (ready : List ReadyStep) :
    compileSteps parts ready =
      if parts = [] ∧ ready = [] then [] else [.steps (ready.reverse ++ readySteps parts)] := by
  induction parts generalizing ready with
  | nil => cases ready <;> simp [compileSteps, readySteps]
  | cons part parts ih =>
      have hpart := h part (by simp)
      cases part <;> simp only [isStep, Bool.false_eq_true] at hpart
      simp [compileSteps, readySteps, ih fun part hp => h part (by simp [hp])]

theorem runAll_readySteps {parts : List Expr} (h : ∀ part ∈ parts, part.isStep)
    (hagree : ∀ part ∈ parts, ∀ e ∈ part.children, e.Agrees v options) (ids : List NodeId) :
    ReadyStep.runAll v options (readySteps parts) ids = evalSteps v options parts ids := by
  induction parts generalizing ids with
  | nil => simp only [readySteps, ReadyStep.runAll, evalSteps]
  | cons part parts ih =>
      have hpart := h part (by simp)
      cases part <;> simp only [isStep, Bool.false_eq_true] at hpart
      rename_i axis test predicates
      have hconds : Program.conditions v options (compilePrograms predicates) =
          conditions v options predicates :=
        conditions_compilePrograms (hagree (step axis test predicates) (by simp))
      have hrest := ih (fun part hp => h part (by simp [hp]))
        (fun part hp => hagree part (by simp [hp]))
      simp only [readySteps, ReadyStep.runAll, evalSteps, hconds, hrest]

theorem evalPath_of_isStep {first : Expr} {rest : List Expr} (h : first.isStep) (focus : Focus) :
    evalPath v options (first :: rest) focus =
      evalSteps v options (first :: rest) [focus.node] := by
  cases first <;> simp only [isStep, Bool.false_eq_true] at h
  rename_i axis test predicates
  simp only [evalPath, eval, evalSteps, List.isEmpty_cons, Bool.false_eq_true, if_false]
  cases Selection.step v options axis (test.ready axis) (conditions v options predicates)
    [focus.node] <;> rfl

theorem length_of_evalArgs {args : List Expr} {focus : Focus} {values : List Value}
    (h : evalArgs v options args focus = .ok values) : values.length = args.length := by
  induction args generalizing values with
  | nil => simp only [evalArgs, Except.ok.injEq] at h; subst h; rfl
  | cons arg args ih =>
      simp only [evalArgs, bind_eq_ok_iff, Except.ok.injEq] at h
      obtain ⟨value, _, values, hvalues, rfl⟩ := h
      simp [ih hvalues]

theorem runOps_compileArgs {args : List Expr} (h : ∀ arg ∈ args, arg.Agrees v options)
    (rest : List Op) (focus : Focus) (stack : Stack) :
    Program.runOps v options (compileArgs args ++ rest) focus stack =
      evalArgs v options args focus >>= fun values =>
        Program.runOps v options rest focus (values.reverse ++ stack) := by
  induction args generalizing stack with
  | nil => simp [compileArgs, evalArgs]
  | cons arg args ih =>
      simp only [compileArgs, evalArgs, List.append_assoc]
      rw [h arg (by simp)]
      cases eval v options arg focus with
      | error err => rfl
      | ok value =>
          simp only [ok_bind, ih fun arg ha => h arg (by simp [ha])]
          cases evalArgs v options args focus <;> simp

/-- Steps behind operations for a value: it is a node-set, or else there is a step to fail at. -/
theorem agrees_steps {parts : List Expr} {ops : List Op} {first : Condition}
    (h : Pushes v options ops first) (hsteps : ∀ part ∈ parts, part.isStep)
    (hagree : ∀ part ∈ parts, ∀ e ∈ part.children, e.Agrees v options)
    (hnodes : parts = [] → ∀ focus value, first focus = .ok value → value.isNodes) :
    Pushes v options (ops ++ compileSteps parts []) (fun focus =>
      first focus >>= fun value => value.toNodes >>= fun ids =>
        evalSteps v options parts ids >>= fun ids => .ok (.nodes ids)) := by
  rw [compileSteps_eq hsteps]
  by_cases hparts : parts = []
  · subst hparts
    intro rest focus stack
    simp only [and_self, if_true, List.append_nil, evalSteps, ok_bind]
    rw [h]
    cases hvalue : first focus with
    | error err => rfl
    | ok value =>
        have hkind := hnodes rfl focus value hvalue
        cases value <;> simp_all [Value.isNodes, Value.toNodes]
  · simp only [hparts, false_and, if_false, List.reverse_nil, List.nil_append]
    refine h.snoc _ _ fun focus value stack => ?_
    simp only [Op.run, Stack.pop, runAll_readySteps hsteps hagree, bind_assoc, ok_bind]

/-! ## Forms of expressions -/

theorem agrees_absolute {parts : List Expr} (hsteps : ∀ part ∈ parts, part.isStep)
    (hagree : ∀ part ∈ parts, ∀ e ∈ part.children, e.Agrees v options) :
    (absolute parts).Agrees v options := by
  have hroot : Pushes v options [.root] fun _ => .ok (.nodes [View.documentNode]) :=
    Pushes.of_run fun _ _ => by simp only [Op.run, ok_bind]
  have hpath := agrees_steps hroot hsteps hagree fun _ _ _ h => by cases h; rfl
  intro rest focus stack
  simpa only [compileOps, eval, Value.toNodes, ok_bind, List.cons_append, List.nil_append] using
    hpath rest focus stack

theorem agrees_steps_of_focus (parts : List Expr) (hsteps : ∀ part ∈ parts, part.isStep)
    (hagree : ∀ part ∈ parts, ∀ e ∈ part.children, e.Agrees v options) :
    Pushes v options (.context :: compileSteps parts []) (fun focus =>
      evalSteps v options parts [focus.node] >>= fun ids => .ok (.nodes ids)) := by
  have hfocus : Pushes v options [.context] fun focus => .ok (.nodes [focus.node]) :=
    Pushes.of_run fun _ _ => by simp only [Op.run, ok_bind]
  have hpath := agrees_steps hfocus hsteps hagree fun _ _ _ h => by cases h; rfl
  intro rest focus stack
  simpa only [Value.toNodes, ok_bind, List.cons_append, List.nil_append] using
    hpath rest focus stack

theorem agrees_step {axis : Axis} {test : NodeTest} {predicates : List Expr}
    (h : ∀ e ∈ predicates, e.Agrees v options) : (step axis test predicates).Agrees v options := by
  have hpath := agrees_steps_of_focus [step axis test predicates] (by simp [isStep])
    (by simpa [children] using h)
  intro rest focus stack
  have hrun := hpath rest focus stack
  simp only [compileSteps, List.reverse_singleton, evalSteps, List.isEmpty_cons,
    Bool.false_eq_true, if_false] at hrun
  simp only [compileOps, eval, hrun]
  cases Selection.step v options axis (test.ready axis) (conditions v options predicates)
    [focus.node] <;> rfl

theorem agrees_relative {parts : List Expr} (hpath : LeadsBySteps (relative parts))
    (hparts : ∀ part ∈ parts, part.Agrees v options)
    (hagree : ∀ part ∈ parts, ∀ e ∈ part.children, e.Agrees v options) :
    (relative parts).Agrees v options := by
  intro rest focus stack
  cases parts with
  | nil =>
      have hrun := agrees_steps_of_focus [] (by simp) hagree rest focus stack
      simpa only [compileOps, startsAtFocus, if_true, eval, evalPath, evalSteps] using hrun
  | cons first others =>
      by_cases hfirst : first.isStep
      · have hsteps : ∀ part ∈ first :: others, part.isStep := by
          simpa [hfirst] using hpath.tail
        simp only [compileOps, startsAtFocus, hfirst, if_true, eval, evalPath_of_isStep hfirst]
        exact agrees_steps_of_focus _ hsteps hagree rest focus stack
      · have hvalue := agrees_steps (hparts first (by simp)) hpath.tail
          (fun part hp => hagree part (by simp [hp]))
          (fun hothers => absurd hothers (hpath.first hfirst))
        simp only [compileOps, startsAtFocus, hfirst, Bool.false_eq_true, if_false,
          compileValuePath, eval, evalPath, bind_assoc]
        simpa only [bind_assoc] using hvalue rest focus stack

theorem agrees_filter {primary : Expr} {predicates : List Expr} (h : primary.Agrees v options)
    (hpredicates : ∀ e ∈ predicates, e.Agrees v options) :
    (filter primary predicates).Agrees v options := by
  have hfilter := h.snoc (.filter (compilePrograms predicates))
    (fun _ value => value.toNodes >>= fun ids =>
      Selection.keepAll options.rounding (conditions v options predicates) ids >>= fun ids =>
        .ok (.nodes ids))
    (fun focus value stack => by
      simp only [Op.run, Stack.pop, conditions_compilePrograms hpredicates, bind_assoc, ok_bind])
  intro rest focus stack
  simpa only [compileOps, eval, bind_assoc] using hfilter rest focus stack

theorem agrees_union {left right : Expr} (hleft : left.Agrees v options)
    (hright : right.Agrees v options) : (union left right).Agrees v options := by
  have hunion := hleft.append_snoc .union Selection.union hright
    (fun focus left right stack => by simp only [Op.run, Stack.pop])
  intro rest focus stack
  simpa only [compileOps, eval] using hunion rest focus stack

theorem agrees_negate {operand : Expr} (h : operand.Agrees v options) :
    (negate operand).Agrees v options := by
  have hnegate := h.snoc .negate (fun _ value => .ok (value.negated v))
    (fun focus value stack => by simp only [Op.run, Stack.pop, ok_bind])
  intro rest focus stack
  simpa only [compileOps, eval] using hnegate rest focus stack

theorem agrees_binary {left right : Expr} (op : BinaryOp) (hleft : left.Agrees v options)
    (hright : right.Agrees v options) : (binary op left right).Agrees v options := by
  have hand := hleft.snoc (.and (.mk right.compileOps))
    (fun focus value =>
      if value.toBoolean then right.eval v options focus >>= fun value =>
        .ok (.boolean value.toBoolean)
      else .ok (.boolean false))
    (fun focus value stack => by
      simp only [Op.run, Stack.pop, hright.run]
      split <;> simp only [bind_assoc, ok_bind])
  have hor := hleft.snoc (.or (.mk right.compileOps))
    (fun focus value =>
      if value.toBoolean then .ok (.boolean true)
      else right.eval v options focus >>= fun value => .ok (.boolean value.toBoolean))
    (fun focus value stack => by
      simp only [Op.run, Stack.pop, hright.run]
      split <;> simp only [bind_assoc, ok_bind])
  have hboth := hleft.append_snoc (.binary op) (fun left right => .ok (op.apply v left right))
    hright (fun focus left right stack => by simp only [Op.run, Stack.pop, ok_bind])
  intro rest focus stack
  cases op with
  | and => simpa only [compileOps, eval] using hand rest focus stack
  | or => simpa only [compileOps, eval] using hor rest focus stack
  | _ => simpa only [compileOps, eval] using hboth rest focus stack

theorem agrees_call {name : String} {args : List Expr} (h : ∀ arg ∈ args, arg.Agrees v options) :
    (call name args).Agrees v options := by
  intro rest focus stack
  simp only [compileOps, eval]
  cases hname : Function.ofTitle? name with
  | none => simp [Program.runOps_cons, Op.run]
  | some function =>
      simp only [List.append_assoc, runOps_compileArgs h]
      cases hargs : evalArgs v options args focus with
      | error err => rfl
      | ok values =>
          simp only [ok_bind, List.singleton_append, Program.runOps_cons, Op.run,
            ← length_of_evalArgs hargs, Stack.popArgs_append, bind_assoc]

theorem agrees_of_wellFormed {e : Expr} (h : e.WellFormed) : e.Agrees v options := by
  refine Everywhere.induction_deep (fun e he hparts hdeep => ?_) h
  have here : LeadsBySteps e := (everywhere_iff.mp he).1
  cases e with
  | absolute parts => exact agrees_absolute here hdeep
  | relative parts => exact agrees_relative here hparts hdeep
  | step axis test predicates => exact agrees_step hparts
  | filter primary predicates =>
      exact agrees_filter (hparts primary (by simp [children]))
        fun e he => hparts e (by simp [children, he])
  | binary op left right =>
      exact agrees_binary op (hparts left (by simp [children]))
        (hparts right (by simp [children]))
  | union left right =>
      exact agrees_union (hparts left (by simp [children])) (hparts right (by simp [children]))
  | negate operand => exact agrees_negate (hparts operand (by simp [children]))
  | string text => exact Pushes.of_run fun _ _ => by simp only [Op.run, eval, ok_bind]
  | number value => exact Pushes.of_run fun _ _ => by simp only [Op.run, eval, ok_bind]
  | call name args => exact agrees_call hparts
  | reference name => exact Pushes.of_run fun _ _ => by simp only [Op.run, eval]

end Expr

/-! ## Whole programs -/

/-- The program of an expression and the expression have the same outcome, value or error, at every
focus, when the paths of the expression lead on by steps. They do in all that is read from a text,
in either language. -/
theorem run_compile_eq_eval :
    (∀ e : Expr, e.WellFormed → ∀ (v : View) (options : QueryOptions) (focus : Focus),
      e.compile.run v options focus = e.eval v options focus) ∧
    (∀ text e, Expr.parse text = .ok e → e.WellFormed) ∧
    (∀ text e, Selector.parseToExpr text = .ok e → e.WellFormed) := by
  refine ⟨fun e he v options focus => ?_, fun text e h => ?_, fun text e h => ?_⟩
  · exact (Expr.agrees_of_wellFormed he).run focus
  · exact Expr.wellFormed_of_parse h
  · exact Selector.wellFormed_of_parseToExpr h

theorem run_compile_eq_eval_of_filter :
    (∀ v options focus,
      let e := Expr.relative [.filter (.reference "x") [.call "f" []], .step .child .any []]
      e.compile.run v options focus = e.eval v options focus) ∧
    (Expr.relative [.reference "x", .step .child (.name "a") []]).WellFormed ∧
    (Expr.relative [.step .child (.name "a") [], .step .descendantOrSelf .any [],
      .step .child (.name "b") []]).WellFormed := by
  refine ⟨fun v options focus => ?_, ?_, ?_⟩
  · exact run_compile_eq_eval.1 _ (Expr.wellFormed_relative (by simp) (by simp [Expr.isStep])
      (by simp)) v options focus
  · have htokens : Expr.Tokens.ofText "$x/a" =
        ⟨[⟨.reference "x", ⟨1, 1⟩⟩, ⟨.slash, ⟨1, 3⟩⟩, ⟨.name "a", ⟨1, 4⟩⟩], .ok ⟨1, 5⟩⟩ :=
      Expr.Tokens.ext (by decide +kernel) (by decide +kernel)
    refine run_compile_eq_eval.2.1 "$x/a" _ ?_
    rw [Expr.parse, htokens]
    rfl
  · exact run_compile_eq_eval.2.2 "a b" _ rfl

end TreeQuery
