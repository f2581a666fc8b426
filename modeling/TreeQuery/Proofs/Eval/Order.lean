import TreeQuery.Eval.Expr
import TreeQuery.Proofs.Expr.Everywhere
import TreeQuery.Proofs.Outcome
import TreeQuery.Proofs.Step.Axes

/-!
Node-sets stay in document order. All node-sets that come up while an expression is evaluated are
strictly ascending lists of nodes of the document, however deep in the expression.
-/
namespace TreeQuery

/-- Nodes of a document in document order, each once. -/
structure Document.Ordered (d : Document) (ids : List NodeId) : Prop where
  ascending : Ascending ids
  lt_size : ∀ id ∈ ids, id < d.size

/-! ## Putting nodes in order -/

theorem lists_eraseReps_loop {a : Nat} {rest front : List Nat}
    (hfront : Ascending (front.reverse ++ [a])) (hrest : (a :: rest).Pairwise (· ≤ ·)) :
    Lists (List.eraseRepsBy.loop (· == ·) a rest front) fun y =>
      y ∈ front.reverse ++ [a] ∨ y ∈ rest := by
  -- `front` holds what is kept so far, the last one first, and `a` is kept next
  induction rest generalizing a front with
  | nil =>
      rw [List.eraseRepsBy.loop, List.reverse_cons]
      exact ⟨hfront, fun y => by simp⟩
  | cons b rest ih =>
      obtain ⟨hab, hrest⟩ := List.pairwise_cons.mp hrest
      rw [List.eraseRepsBy.loop]
      split
      · rename_i heq
        obtain rfl := beq_iff_eq.mp heq
        exact (ih hfront hrest).congr fun y => by grind
      · rename_i hne
        have hlt : a < b := Nat.lt_of_le_of_ne (hab b List.mem_cons_self) (by simpa using hne)
        have hnext : Ascending ((a :: front).reverse ++ [b]) := by
          rw [List.reverse_cons]
          refine hfront.append (List.pairwise_singleton _ b) fun x hx y hy => ?_
          obtain rfl := List.mem_singleton.mp hy
          rcases List.mem_append.mp hx with hx | hx
          · exact Nat.lt_trans ((List.pairwise_append.mp hfront).2.2 x hx a (by simp)) hlt
          · rwa [List.mem_singleton.mp hx]
        exact (ih hnext hrest).congr fun y => by simp [or_assoc]

theorem lists_documentOrder (l : List Nat) : Lists (documentOrder l) (· ∈ l) := by
  have hsorted : (l.mergeSort fun a b => decide (a ≤ b)).Pairwise (· ≤ ·) := by
    refine (List.pairwise_mergeSort ?_ ?_ l).imp of_decide_eq_true
    · intro a b c hab hbc
      exact decide_eq_true (Nat.le_trans (of_decide_eq_true hab) (of_decide_eq_true hbc))
    · intro a b
      simpa using Nat.le_total a b
  rw [documentOrder, List.eraseReps]
  cases hl : l.mergeSort fun a b => decide (a ≤ b) with
  | nil =>
      refine .nil fun y hy => ?_
      rw [← List.mem_mergeSort, hl] at hy
      cases hy
  | cons a rest =>
      rw [hl] at hsorted
      refine (lists_eraseReps_loop (by simp) hsorted).congr fun y => ?_
      rw [← List.mem_mergeSort (l := l), hl]
      simp

/-- Nodes in order are those that a list is put into, when they are the same. -/
theorem documentOrder_eq {ids ordered : List Nat} (h : Ascending ordered)
    (hids : ∀ id ∈ ids, id ∈ ordered) (hordered : ∀ id ∈ ordered, id ∈ ids) :
    documentOrder ids = ordered :=
  (lists_documentOrder ids).ascending.ext h fun id =>
    ((lists_documentOrder ids).mem_iff id).trans ⟨hids id, hordered id⟩

theorem Selection.step_of_found {v : View} {options : QueryOptions} {axis : Axis} {test : ReadyTest}
    {conditions : List Condition} {ids ordered : List Nat} (found : List Nat)
    (hfound : stepFromEach v options axis test conditions ids = .ok found)
    (h : Ascending ordered) (hall : ∀ id ∈ found, id ∈ ordered)
    (hordered : ∀ id ∈ ordered, id ∈ found) :
    step v options axis test conditions ids = .ok ordered := by
  rw [step, hfound, ok_bind, documentOrder_eq h hall hordered]

namespace Document.Ordered

variable {d : Document} {ids kept : List Nat}

theorem sublist (h : d.Ordered ids) (hsub : kept.Sublist ids) : d.Ordered kept :=
  ⟨h.ascending.sublist hsub, fun id hid => h.lt_size id (hsub.subset hid)⟩

theorem documentOrder (h : ∀ id ∈ ids, id < d.size) : d.Ordered (documentOrder ids) := by
  obtain ⟨hascending, hmem⟩ := lists_documentOrder ids
  exact ⟨hascending, fun id hid => h id ((hmem id).mp hid)⟩

theorem singleton {id : Nat} (h : id < d.size) : d.Ordered [id] :=
  ⟨List.pairwise_singleton _ id, by simpa using h⟩

theorem nil : d.Ordered [] := ⟨.nil, by simp⟩

end Document.Ordered

/-! ## Selecting nodes -/

namespace Selection

variable {d : Document} {options : QueryOptions} {rounding : Rounding} {axis : Axis}
  {test : ReadyTest} {ids kept : List Nat} {n : Nat}

theorem sublist_keepFrom {condition : Condition} {size position : Nat}
    (h : keepFrom rounding condition size position ids = .ok kept) : kept.Sublist ids := by
  induction ids generalizing position kept with
  | nil =>
      simp only [keepFrom, Except.ok.injEq] at h
      subst h
      exact .slnil
  | cons id ids ih =>
      simp only [keepFrom, bind_eq_ok_iff, Except.ok.injEq] at h
      obtain ⟨value, _, rest, hrest, rfl⟩ := h
      split
      · exact (ih hrest).cons_cons id
      · exact (ih hrest).cons id

theorem sublist_keepAll {conditions : List Condition}
    (h : keepAll rounding conditions ids = .ok kept) : kept.Sublist ids := by
  induction conditions generalizing ids with
  | nil =>
      simp only [keepAll, Except.ok.injEq] at h
      subst h
      exact .refl ids
  | cons condition conditions ih =>
      rw [keepAll] at h
      split at h
      · cases h
        exact List.nil_sublist ids
      · simp only [bind_eq_ok_iff] at h
        obtain ⟨left, hleft, hkept⟩ := h
        exact (ih hkept).trans (sublist_keepFrom hleft)

variable (hd : d.WellBuilt)
include hd

theorem lt_size_of_mem_candidates {id : Nat} (hn : n < d.size)
    (hid : id ∈ candidates d.view options axis test n) : id < d.size :=
  hd.lt_size_of_mem_along hn axis (List.mem_filter.mp hid).1

theorem lt_size_of_stepFromEach {conditions : List Condition} (hids : ∀ id ∈ ids, id < d.size)
    (h : stepFromEach d.view options axis test conditions ids = .ok kept) :
    ∀ id ∈ kept, id < d.size := by
  induction ids generalizing kept with
  | nil =>
      simp only [stepFromEach, Except.ok.injEq] at h
      subst h
      simp
  | cons n ids ih =>
      simp only [stepFromEach, bind_eq_ok_iff, Except.ok.injEq] at h
      obtain ⟨here, hhere, rest, hrest, rfl⟩ := h
      intro id hid
      rcases List.mem_append.mp hid with hid | hid
      · exact lt_size_of_mem_candidates hd (hids n List.mem_cons_self)
          ((sublist_keepAll hhere).subset hid)
      · exact ih (fun id hid => hids id (List.mem_cons_of_mem n hid)) hrest id hid

theorem ordered_step {conditions : List Condition} (hids : ∀ id ∈ ids, id < d.size)
    (h : step d.view options axis test conditions ids = .ok kept) : d.Ordered kept := by
  simp only [step, bind_eq_ok_iff, Except.ok.injEq] at h
  obtain ⟨reached, hreached, rfl⟩ := h
  exact .documentOrder (lt_size_of_stepFromEach hd hids hreached)

end Selection

/-! ## Values -/

/-- The nodes of a value, when it is a node-set, are in order. -/
def Value.Ordered (d : Document) (value : Value) : Prop :=
  ∀ ids, value = .nodes ids → d.Ordered ids

namespace Value

variable {d : Document} {value left right : Value} {ids : List NodeId}

theorem toNodes_eq_ok_iff : value.toNodes = .ok ids ↔ value = .nodes ids := by
  cases value <;> simp [toNodes]

@[simp] theorem ordered_nodes : (nodes ids).Ordered d ↔ d.Ordered ids := by
  simp [Ordered]

@[simp] theorem ordered_boolean (b : Bool) : (boolean b).Ordered d := by
  simp [Ordered]

@[simp] theorem ordered_number (n : Number) : (number n).Ordered d := by
  simp [Ordered]

@[simp] theorem ordered_string (s : String) : (string s).Ordered d := by
  simp [Ordered]

theorem ordered_union (hleft : left.Ordered d) (hright : right.Ordered d)
    (h : Selection.union left right = .ok value) : value.Ordered d := by
  simp only [Selection.union, bind_eq_ok_iff, Except.ok.injEq, toNodes_eq_ok_iff] at h
  obtain ⟨l, rfl, r, rfl, rfl⟩ := h
  rw [ordered_nodes] at hleft hright ⊢
  refine .documentOrder fun id hid => ?_
  rcases List.mem_append.mp hid with hid | hid
  · exact hleft.lt_size id hid
  · exact hright.lt_size id hid

theorem ordered_apply (v : View) (op : BinaryOp) : (op.apply v left right).Ordered d := by
  cases op <;> simp [BinaryOp.apply]

end Value

/-! ## Functions -/

namespace Function

variable {d : Document}

theorem ordered_elementsById (hd : d.WellBuilt) (value : Value) :
    d.Ordered (elementsById d.view value) := by
  rw [elementsById]
  split
  · exact .nil
  · have hdescendants := hd.lists_descendants (x := View.documentNode)
    refine ⟨hdescendants.ascending.filter _, fun id hid => ?_⟩
    exact ((hdescendants.mem_iff id).mp (List.mem_filter.mp hid).1).1.1

theorem ordered_aboutTarget {ask : NodeId → Option String} {focus : Focus} {args : List Value}
    {value : Value} (h : aboutTarget ask focus args = .ok value) : value.Ordered d := by
  simp only [aboutTarget, bind_eq_ok_iff, Except.ok.injEq] at h
  obtain ⟨_, _, rfl⟩ := h
  exact Value.ordered_string _

/-- Of all functions, only one gives nodes. -/
theorem ordered_call (hd : d.WellBuilt) {f : Function} {focus : Focus} {args : List Value}
    {value : Value} (h : f.call d.view focus args = .ok value) : value.Ordered d := by
  rw [call] at h
  split at h
  · unfold apply at h
    split at h
    case h_4 =>
      cases h
      exact Value.ordered_nodes.mpr (ordered_elementsById hd _)
    case h_5 | h_6 | h_7 => exact ordered_aboutTarget h
    all_goals simp only [Value.ofNat, bind_eq_ok_iff, Except.ok.injEq, reduceCtorEq] at h
    -- what is left are texts, numbers and truth values, two of them of a node-set
    all_goals first
      | subst h
        simp
      | obtain ⟨_, _, rfl⟩ := h
        simp
  · cases h

end Function

/-! ## Expressions -/

/-- The node-sets bound to names are in order. -/
def QueryOptions.Ordered (options : QueryOptions) (d : Document) : Prop :=
  ∀ name ids, options.value name = .ok (.nodes ids) → d.Ordered ids

namespace Expr

variable {d : Document} {options : QueryOptions} (hd : d.WellBuilt) (hoptions : options.Ordered d)

include hd in
theorem ordered_evalSteps {parts : List Expr} {ids reached : List NodeId} (hids : d.Ordered ids)
    (h : evalSteps d.view options parts ids = .ok reached) : d.Ordered reached := by
  induction parts generalizing ids with
  | nil =>
      simp only [evalSteps, Except.ok.injEq] at h
      rwa [← h]
  | cons part parts ih =>
      cases part with
      | step axis test predicates =>
          rw [evalSteps] at h
          split at h
          · cases h
            exact .nil
          · simp only [bind_eq_ok_iff] at h
            obtain ⟨next, hnext, h⟩ := h
            exact ih (Selection.ordered_step hd hids.lt_size hnext) h
      | _ =>
          simp only [evalSteps] at h
          split at h <;> cases h
          exact .nil

theorem ordered_eval_binary {op : BinaryOp} {left right : Expr} {focus : Focus} {value : Value}
    (h : (binary op left right).eval d.view options focus = .ok value) : value.Ordered d := by
  cases op with
  | and =>
      simp only [eval, bind_eq_ok_iff] at h
      obtain ⟨l, _, h⟩ := h
      split at h <;> simp only [bind_eq_ok_iff, Except.ok.injEq] at h
      · obtain ⟨r, _, rfl⟩ := h
        exact Value.ordered_boolean _
      · subst h
        exact Value.ordered_boolean _
  | or =>
      simp only [eval, bind_eq_ok_iff] at h
      obtain ⟨l, _, h⟩ := h
      split at h <;> simp only [bind_eq_ok_iff, Except.ok.injEq] at h
      · subst h
        exact Value.ordered_boolean _
      · obtain ⟨r, _, rfl⟩ := h
        exact Value.ordered_boolean _
  | _ =>
      simp only [eval, bind_eq_ok_iff, Except.ok.injEq] at h
      obtain ⟨l, _, r, _, rfl⟩ := h
      exact Value.ordered_apply d.view _

include hd hoptions

theorem ordered_eval (e : Expr) {focus : Focus} {value : Value} (hfocus : focus.node < d.size)
    (h : e.eval d.view options focus = .ok value) : value.Ordered d := by
  induction e using induction_on_children generalizing focus value with
  | h e ih =>
      cases e with
      | absolute parts =>
          simp only [eval, bind_eq_ok_iff, Except.ok.injEq] at h
          obtain ⟨ids, hids, rfl⟩ := h
          rw [Value.ordered_nodes]
          exact ordered_evalSteps hd (.singleton hd.size_pos) hids
      | relative parts =>
          simp only [eval, bind_eq_ok_iff, Except.ok.injEq] at h
          obtain ⟨ids, hids, rfl⟩ := h
          rw [Value.ordered_nodes]
          cases parts with
          | nil =>
              simp only [evalPath, Except.ok.injEq] at hids
              subst hids
              exact .singleton hfocus
          | cons first rest =>
              simp only [evalPath, bind_eq_ok_iff, Value.toNodes_eq_ok_iff] at hids
              obtain ⟨_, hfirst, start, rfl, hids⟩ := hids
              have hstart := ih first (by simp [children]) hfocus hfirst
              exact ordered_evalSteps hd (Value.ordered_nodes.mp hstart) hids
      | step axis test predicates =>
          simp only [eval, bind_eq_ok_iff, Except.ok.injEq] at h
          obtain ⟨ids, hids, rfl⟩ := h
          rw [Value.ordered_nodes]
          exact Selection.ordered_step hd (by simpa using hfocus) hids
      | filter primary predicates =>
          simp only [eval, bind_eq_ok_iff, Except.ok.injEq, Value.toNodes_eq_ok_iff] at h
          obtain ⟨_, hprimary, ids, rfl, kept, hkept, rfl⟩ := h
          have hids := ih primary (by simp [children]) hfocus hprimary
          rw [Value.ordered_nodes] at hids ⊢
          exact hids.sublist (Selection.sublist_keepAll hkept)
      | binary op left right =>
          exact ordered_eval_binary h
      | union left right =>
          simp only [eval, bind_eq_ok_iff] at h
          obtain ⟨l, hl, r, hr, hunion⟩ := h
          exact Value.ordered_union (ih left (by simp [children]) hfocus hl)
            (ih right (by simp [children]) hfocus hr) hunion
      | negate operand =>
          simp only [eval, bind_eq_ok_iff, Except.ok.injEq] at h
          obtain ⟨_, _, rfl⟩ := h
          exact Value.ordered_number _
      | string text =>
          simp only [eval, Except.ok.injEq] at h
          subst h
          exact Value.ordered_string text
      | number n =>
          simp only [eval, Except.ok.injEq] at h
          subst h
          exact Value.ordered_number n
      | call name args =>
          rw [eval] at h
          split at h
          · cases h
          · simp only [bind_eq_ok_iff] at h
            obtain ⟨_, _, hcall⟩ := h
            exact Function.ordered_call hd hcall
      | reference name =>
          rw [eval] at h
          intro ids hids
          subst hids
          exact hoptions name ids h

/-! ## Node-sets on the way -/

omit hd hoptions

/-- The parts that are evaluated where the whole is. -/
def operands : Expr → List Expr
  | relative (first :: _) => [first]
  | filter primary _ => [primary]
  | binary _ left right | union left right => [left, right]
  | negate operand => [operand]
  | call _ args => args
  | _ => []

/-- The node-sets that come up while an expression is evaluated at a focus: its value, the nodes
that a path leads to before its last steps, those that a filter keeps before its last predicates,
and all that comes up in parts, at each focus that they are evaluated at. -/
inductive Produces (v : View) (options : QueryOptions) : Expr → Focus → List NodeId → Prop where
  | value {e : Expr} {focus : Focus} {ids : List NodeId}
      (h : e.eval v options focus = .ok (.nodes ids)) : Produces v options e focus ids
  | operand {e part : Expr} {focus : Focus} {ids : List NodeId} (hpart : part ∈ e.operands)
      (h : Produces v options part focus ids) : Produces v options e focus ids
  | absolute_front {parts more : List Expr} {focus : Focus} {ids : List NodeId}
      (h : Produces v options (absolute parts) focus ids) :
      Produces v options (absolute (parts ++ more)) focus ids
  | absolute_part {parts more : List Expr} {part : Expr} {focus : Focus} {start ids : List NodeId}
      {id : NodeId} (hstart : (absolute parts).eval v options focus = .ok (.nodes start))
      (hid : id ∈ start) (h : Produces v options part { node := id } ids) :
      Produces v options (absolute (parts ++ part :: more)) focus ids
  | relative_front {parts more : List Expr} {focus : Focus} {ids : List NodeId}
      (h : Produces v options (relative parts) focus ids) :
      Produces v options (relative (parts ++ more)) focus ids
  | relative_part {parts more : List Expr} {part : Expr} {focus : Focus} {start ids : List NodeId}
      {id : NodeId} (hstart : (relative parts).eval v options focus = .ok (.nodes start))
      (hid : id ∈ start) (h : Produces v options part { node := id } ids) :
      Produces v options (relative (parts ++ part :: more)) focus ids
  | filter_front {primary : Expr} {predicates more : List Expr} {focus : Focus}
      {ids : List NodeId} (h : Produces v options (filter primary predicates) focus ids) :
      Produces v options (filter primary (predicates ++ more)) focus ids
  | filter_predicate {primary predicate : Expr} {predicates more : List Expr} {focus : Focus}
      {kept ids : List NodeId} {i : Nat} {id : NodeId}
      (hkept : (filter primary predicates).eval v options focus = .ok (.nodes kept))
      (hid : kept[i]? = some id)
      (h : Produces v options predicate ⟨id, i + 1, kept.length⟩ ids) :
      Produces v options (filter primary (predicates ++ predicate :: more)) focus ids
  | step_predicate {axis : Axis} {test : NodeTest} {predicate : Expr}
      {predicates more : List Expr} {focus : Focus} {kept ids : List NodeId} {i : Nat} {id : NodeId}
      (hkept : Selection.keepAll options.rounding (conditions v options predicates)
        (Selection.candidates v options axis (test.ready axis) focus.node) = .ok kept)
      (hid : kept[i]? = some id)
      (h : Produces v options predicate ⟨id, i + 1, kept.length⟩ ids) :
      Produces v options (step axis test (predicates ++ predicate :: more)) focus ids

include hd hoptions

theorem ordered_of_produces {e : Expr} {focus : Focus} {ids : List NodeId}
    (h : e.Produces d.view options focus ids) (hfocus : focus.node < d.size) : d.Ordered ids := by
  -- all that an expression is evaluated at is a node of the document, so this goes through parts
  have hvalue : ∀ {e : Expr} {focus : Focus} {ids : List NodeId}, focus.node < d.size →
      e.eval d.view options focus = .ok (.nodes ids) → d.Ordered ids := fun hfocus h =>
    ordered_eval hd hoptions _ hfocus h _ rfl
  induction h with
  | value h => exact hvalue hfocus h
  | operand _ _ ih | absolute_front _ ih | relative_front _ ih | filter_front _ ih =>
      exact ih hfocus
  | absolute_part hstart hid _ ih | relative_part hstart hid _ ih =>
      exact ih ((hvalue hfocus hstart).lt_size _ hid)
  | filter_predicate hkept hid _ ih =>
      exact ih ((hvalue hfocus hkept).lt_size _ (List.mem_of_getElem? hid))
  | step_predicate hkept hid _ ih =>
      have hcandidate := (Selection.sublist_keepAll hkept).subset (List.mem_of_getElem? hid)
      exact ih (Selection.lt_size_of_mem_candidates hd hfocus hcandidate)

end Expr

end TreeQuery
