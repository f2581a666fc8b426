import TreeQuery.Program.Compile
import TreeQuery.Program.Run
import TreeQuery.Proofs.Eval.Order

/-!
Programs keep node-sets in document order as expressions do: every operation leaves a stack whose
node-sets are in order, and what comes up inside an operation is in order, too.
-/
namespace TreeQuery

variable {d : Document} {options : QueryOptions}

/-! ## The stack -/

/-- All node-sets on a stack are in order. -/
def Stack.Ordered (d : Document) (stack : Stack) : Prop := ∀ value ∈ stack, value.Ordered d

namespace Stack

variable {stack : Stack} {value : Value}

theorem Ordered.push (hvalue : value.Ordered d) (h : stack.Ordered d) :
    Stack.Ordered d (value :: stack) := by
  intro other hother
  rcases List.mem_cons.mp hother with rfl | hother
  · exact hvalue
  · exact h other hother

theorem Ordered.pop (h : stack.Ordered d) : stack.pop.1.Ordered d ∧ stack.pop.2.Ordered d := by
  cases stack with
  | nil => exact ⟨Value.ordered_nodes.mpr .nil, h⟩
  | cons value stack =>
      exact ⟨h value List.mem_cons_self,
        fun other hother => h other (List.mem_cons_of_mem _ hother)⟩

theorem Ordered.popArgs (h : stack.Ordered d) (n : Nat) : (stack.popArgs n).2.Ordered d :=
  fun value hvalue => h value (List.mem_of_mem_drop hvalue)

theorem ordered_nil : Stack.Ordered d [] := fun _ hvalue => nomatch hvalue

end Stack

/-! ## Operations -/

section
variable (hd : d.WellBuilt)
include hd

theorem ReadyStep.ordered_runAll {steps : List ReadyStep} {ids reached : List NodeId}
    (hids : d.Ordered ids) (h : runAll d.view options steps ids = .ok reached) :
    d.Ordered reached := by
  induction steps generalizing ids with
  | nil =>
      simp only [runAll, Except.ok.injEq] at h
      rwa [← h]
  | cons step steps ih =>
      cases step with
      | mk axis test predicates =>
          rw [runAll] at h
          split at h
          · cases h
            exact .nil
          · simp only [bind_eq_ok_iff] at h
            obtain ⟨next, hnext, h⟩ := h
            exact ih (Selection.ordered_step hd hids.lt_size hnext) h

variable (hoptions : options.Ordered d)
include hoptions

theorem Op.ordered_run {op : Op} {focus : Focus} {stack left : Stack}
    (hfocus : focus.node < d.size) (hstack : stack.Ordered d)
    (h : op.run d.view options focus stack = .ok left) : left.Ordered d := by
  obtain ⟨htop, hrest⟩ := hstack.pop
  cases op with
  | root =>
      simp only [run, Except.ok.injEq] at h
      subst h
      exact .push (Value.ordered_nodes.mpr (.singleton hd.size_pos)) hstack
  | context =>
      simp only [run, Except.ok.injEq] at h
      subst h
      exact .push (Value.ordered_nodes.mpr (.singleton hfocus)) hstack
  | steps steps =>
      simp only [run, bind_eq_ok_iff, Except.ok.injEq, Value.toNodes_eq_ok_iff] at h
      obtain ⟨ids, hids, reached, hreached, rfl⟩ := h
      rw [hids, Value.ordered_nodes] at htop
      exact .push (Value.ordered_nodes.mpr (ReadyStep.ordered_runAll hd htop hreached)) hrest
  | filter predicates =>
      simp only [run, bind_eq_ok_iff, Except.ok.injEq, Value.toNodes_eq_ok_iff] at h
      obtain ⟨ids, hids, kept, hkept, rfl⟩ := h
      rw [hids, Value.ordered_nodes] at htop
      exact .push (Value.ordered_nodes.mpr (htop.sublist (Selection.sublist_keepAll hkept))) hrest
  | union =>
      simp only [run, bind_eq_ok_iff, Except.ok.injEq] at h
      obtain ⟨value, hvalue, rfl⟩ := h
      obtain ⟨hbelow, hrest⟩ := hrest.pop
      exact .push (Value.ordered_union hbelow htop hvalue) hrest
  | number value =>
      simp only [run, Except.ok.injEq] at h
      subst h
      exact .push (Value.ordered_number value) hstack
  | string text =>
      simp only [run, Except.ok.injEq] at h
      subst h
      exact .push (Value.ordered_string text) hstack
  | reference name =>
      simp only [run, bind_eq_ok_iff, Except.ok.injEq] at h
      obtain ⟨value, hvalue, rfl⟩ := h
      exact .push (fun ids hids => hoptions name ids (hids ▸ hvalue)) hstack
  | negate =>
      simp only [run, Except.ok.injEq] at h
      subst h
      exact .push (Value.ordered_number _) hrest
  | binary op =>
      simp only [run, Except.ok.injEq] at h
      subst h
      exact .push (Value.ordered_apply d.view op) hrest.pop.2
  | and right =>
      simp only [run] at h
      split at h <;> simp only [bind_eq_ok_iff, Except.ok.injEq] at h
      · obtain ⟨value, _, rfl⟩ := h
        exact .push (Value.ordered_boolean _) hrest
      · subst h
        exact .push (Value.ordered_boolean _) hrest
  | or right =>
      simp only [run] at h
      split at h <;> simp only [bind_eq_ok_iff, Except.ok.injEq] at h
      · subst h
        exact .push (Value.ordered_boolean _) hrest
      · obtain ⟨value, _, rfl⟩ := h
        exact .push (Value.ordered_boolean _) hrest
  | call function n =>
      simp only [run, bind_eq_ok_iff, Except.ok.injEq] at h
      obtain ⟨value, hvalue, rfl⟩ := h
      exact .push (Function.ordered_call hd hvalue) (hstack.popArgs n)
  | unsupported feature =>
      simp only [run] at h
      cases h

namespace Program

theorem ordered_runOps {ops : List Op} {focus : Focus} {stack left : Stack}
    (hfocus : focus.node < d.size) (hstack : stack.Ordered d)
    (h : runOps d.view options ops focus stack = .ok left) : left.Ordered d := by
  induction ops generalizing stack with
  | nil =>
      simp only [runOps, Except.ok.injEq] at h
      rwa [← h]
  | cons op ops ih =>
      simp only [runOps, bind_eq_ok_iff] at h
      obtain ⟨next, hnext, h⟩ := h
      exact ih (Op.ordered_run hd hoptions hfocus hstack hnext) h

theorem ordered_run {program : Program} {focus : Focus} {value : Value}
    (hfocus : focus.node < d.size) (h : program.run d.view options focus = .ok value) :
    value.Ordered d := by
  cases program with
  | mk ops =>
      simp only [run, bind_eq_ok_iff, Except.ok.injEq] at h
      obtain ⟨stack, hstack, rfl⟩ := h
      exact (ordered_runOps hd hoptions hfocus Stack.ordered_nil hstack).pop.1

end Program

end

/-! ## Node-sets on the way -/

/-- The node-sets that come up while a program runs at a focus: its value, those on the stack after
its first operations, those that the first steps or predicates of an operation lead to or keep, and
all that comes up in the programs of its predicates and operands, at each focus they run at. -/
inductive Program.Produces (v : View) (options : QueryOptions) :
    Program → Focus → List NodeId → Prop where
  | value {program : Program} {focus : Focus} {ids : List NodeId}
      (h : program.run v options focus = .ok (.nodes ids)) : Produces v options program focus ids
  | pushed {ops more : List Op} {focus : Focus} {stack : Stack} {ids : List NodeId}
      (hrun : runOps v options ops focus [] = .ok stack) (hids : .nodes ids ∈ stack) :
      Produces v options (.mk (ops ++ more)) focus ids
  | stepped {ops more : List Op} {steps later : List ReadyStep} {focus : Focus} {stack : Stack}
      {start ids : List NodeId} (hrun : runOps v options ops focus [] = .ok stack)
      (htop : stack.pop.1 = .nodes start) (h : ReadyStep.runAll v options steps start = .ok ids) :
      Produces v options (.mk (ops ++ .steps (steps ++ later) :: more)) focus ids
  | step_predicate {ops more : List Op} {steps later : List ReadyStep} {axis : Axis}
      {test : ReadyTest} {predicates others : List Program} {predicate : Program} {focus : Focus}
      {stack : Stack} {start reached kept ids : List NodeId} {n id : NodeId} {i : Nat}
      (hrun : runOps v options ops focus [] = .ok stack) (htop : stack.pop.1 = .nodes start)
      (hreached : ReadyStep.runAll v options steps start = .ok reached) (hn : n ∈ reached)
      (hkept : Selection.keepAll options.rounding (conditions v options predicates)
        (Selection.candidates v options axis test n) = .ok kept)
      (hid : kept[i]? = some id)
      (h : Produces v options predicate ⟨id, i + 1, kept.length⟩ ids) :
      Produces v options (.mk (ops ++ .steps (steps ++
        .mk axis test (predicates ++ predicate :: others) :: later) :: more)) focus ids
  | filtered {ops more : List Op} {predicates others : List Program} {focus : Focus}
      {stack : Stack} {start ids : List NodeId} (hrun : runOps v options ops focus [] = .ok stack)
      (htop : stack.pop.1 = .nodes start)
      (h : Selection.keepAll options.rounding (conditions v options predicates) start = .ok ids) :
      Produces v options (.mk (ops ++ .filter (predicates ++ others) :: more)) focus ids
  | filter_predicate {ops more : List Op} {predicates others : List Program}
      {predicate : Program} {focus : Focus} {stack : Stack} {start kept ids : List NodeId}
      {id : NodeId} {i : Nat} (hrun : runOps v options ops focus [] = .ok stack)
      (htop : stack.pop.1 = .nodes start)
      (hkept : Selection.keepAll options.rounding (conditions v options predicates) start =
        .ok kept)
      (hid : kept[i]? = some id)
      (h : Produces v options predicate ⟨id, i + 1, kept.length⟩ ids) :
      Produces v options (.mk (ops ++ .filter (predicates ++ predicate :: others) :: more)) focus
        ids
  | right_operand {ops more : List Op} {op : Op} {right : Program} {focus : Focus}
      {ids : List NodeId} (hop : op = .and right ∨ op = .or right)
      (h : Produces v options right focus ids) :
      Produces v options (.mk (ops ++ op :: more)) focus ids

theorem Program.ordered_of_produces (hd : d.WellBuilt) (hoptions : options.Ordered d)
    {program : Program} {focus : Focus} {ids : List NodeId}
    (h : program.Produces d.view options focus ids) (hfocus : focus.node < d.size) :
    d.Ordered ids := by
  have hstack : ∀ {ops : List Op} {focus : Focus} {stack : Stack}, focus.node < d.size →
      runOps d.view options ops focus [] = .ok stack → stack.Ordered d := fun hfocus hrun =>
    ordered_runOps hd hoptions hfocus Stack.ordered_nil hrun
  have hstart : ∀ {ops : List Op} {focus : Focus} {stack : Stack} {start : List NodeId},
      focus.node < d.size → runOps d.view options ops focus [] = .ok stack →
        stack.pop.1 = .nodes start → d.Ordered start := fun hfocus hrun htop =>
    (hstack hfocus hrun).pop.1 _ htop
  induction h with
  | value h => exact ordered_run hd hoptions hfocus h _ rfl
  | pushed hrun hids => exact hstack hfocus hrun _ hids _ rfl
  | stepped hrun htop h => exact ReadyStep.ordered_runAll hd (hstart hfocus hrun htop) h
  | step_predicate hrun htop hreached hn hkept hid _ ih =>
      have hnode := (ReadyStep.ordered_runAll hd (hstart hfocus hrun htop) hreached).lt_size _ hn
      have hcandidate := (Selection.sublist_keepAll hkept).subset (List.mem_of_getElem? hid)
      exact ih (Selection.lt_size_of_mem_candidates hd hnode hcandidate)
  | filtered hrun htop h =>
      exact (hstart hfocus hrun htop).sublist (Selection.sublist_keepAll h)
  | filter_predicate hrun htop hkept hid _ ih =>
      have hmem := (Selection.sublist_keepAll hkept).subset (List.mem_of_getElem? hid)
      exact ih ((hstart hfocus hrun htop).lt_size _ hmem)
  | right_operand _ _ ih => exact ih hfocus

/-! ## Queries -/

/-- At every node of a document, node-sets bound to names being in order, all node-sets that an
expression or its program gives or comes across are in order. -/
theorem ordered_eval_and_run (events : List Event) (options : QueryOptions)
    (hoptions : options.Ordered (.ofEvents events)) (e : Expr) (focus : Focus)
    (hfocus : focus.node < (Document.ofEvents events).size) (ids : List NodeId) :
    let d := Document.ofEvents events
    (e.eval d.view options focus = .ok (.nodes ids) → d.Ordered ids) ∧
      (e.compile.run d.view options focus = .ok (.nodes ids) → d.Ordered ids) ∧
      (e.Produces d.view options focus ids → d.Ordered ids) ∧
      (e.compile.Produces d.view options focus ids → d.Ordered ids) := by
  have hd := Document.wellBuilt_ofEvents events
  exact ⟨fun h => Expr.ordered_eval hd hoptions e hfocus h ids rfl,
    fun h => Program.ordered_run hd hoptions hfocus h ids rfl,
    fun h => Expr.ordered_of_produces hd hoptions h hfocus,
    fun h => Program.ordered_of_produces hd hoptions h hfocus⟩

theorem ordered_eval_and_run_of_reference :
    let d := Document.ofEvents [.start "a" [], .text "t", .text "u", .close]
    let options : QueryOptions := { values := [("x", .nodes [2, 3])] }
    let e := Expr.relative [.reference "x", .step .ancestorOrSelf .node []]
    0 < d.size ∧ options.Ordered d ∧
      (e.eval d.view options { node := 0 } = .ok (.nodes [0, 1, 2, 3]) ∧ d.Ordered [0, 1, 2, 3]) ∧
      (e.compile.Produces d.view options { node := 0 } [2, 3] ∧ d.Ordered [2, 3]) := by
  intro d options e
  have hoptions : options.Ordered d := by
    intro name ids hvalue
    have hids : ids = [2, 3] := by
      cases hname : name == "x" with
      | false => simp [options, QueryOptions.value, List.lookup_cons, hname] at hvalue
      | true =>
          simp only [options, QueryOptions.value, List.lookup_cons, hname, Except.ok.injEq,
            Value.nodes.injEq] at hvalue
          exact hvalue.symm
    rw [hids]
    exact ⟨by decide, by decide⟩
  let step := Selection.step d.view options .ancestorOrSelf .node []
  have hstep : step [2, 3] = .ok [0, 1, 2, 3] :=
    Selection.step_of_found [2, 1, 0, 3, 1, 0] (by decide +kernel) (by decide) (by decide)
      (by decide)
  have heval : e.eval d.view options { node := 0 } = .ok (.nodes [0, 1, 2, 3]) := by
    have hpath : e.eval d.view options { node := 0 } =
        step [2, 3] >>= fun ids => .ok (.nodes ids) := rfl
    rw [hpath, hstep]
    rfl
  have hcompile : e.compile =
      .mk ([.reference "x"] ++ .steps ([] ++ [.mk .ancestorOrSelf .node []]) :: []) := rfl
  have hrun : Program.runOps d.view options [.reference "x"] { node := 0 } [] =
      .ok [.nodes [2, 3]] := rfl
  have hproduces : e.compile.Produces d.view options { node := 0 } [2, 3] := by
    rw [hcompile]
    exact .pushed hrun (by simp)
  have hordered := ordered_eval_and_run _ options hoptions e { node := 0 } (by decide)
  exact ⟨by decide, hoptions, ⟨heval, (hordered _).1 heval⟩, hproduces,
    (hordered _).2.2.2 hproduces⟩

end TreeQuery
