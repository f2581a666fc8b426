import TreeQuery.Proofs.Eval.Order

/-!
Expressions whose value depends on the node in focus alone, not on its position. Predicates of this
kind keep the nodes that each of them holds at, so a step with such predicates selects by its axis,
its test and its predicates, whatever stands beside a node.
-/
namespace TreeQuery

variable {v : View} {options : QueryOptions}

/-! ## Predicates without positions -/

namespace Selection

variable {conditions : List Condition} {ids : List NodeId}

/-- The condition gives a truth value, a text or nodes, the same ones at all foci of a node. -/
def Settled (condition : Condition) : Prop :=
  ∃ value : NodeId → Value, ∀ focus, condition focus = .ok (value focus.node) ∧
    (value focus.node).number? = none

/-- The condition is true at a node by itself. -/
def holds (condition : Condition) (id : NodeId) : Bool :=
  match condition { node := id } with
  | .ok value => value.toBoolean
  | .error _ => false

theorem keeps_of_not_number {rounding : Rounding} {position : Nat} {value : Value}
    (h : value.number? = none) : keeps rounding position value = value.toBoolean := by
  cases value with
  | number n => cases h
  | _ => rfl

/-- The condition says the same at all foci of a node, and what it says is not a number. It may
fail. -/
structure Pointwise (condition : Condition) : Prop where
  node (focus : Focus) : condition focus = condition { node := focus.node }
  kind {id : NodeId} {value : Value} :
    condition { node := id } = .ok value → value.number? = none

/-- The condition does not fail at a node by itself. -/
def HasValue (condition : Condition) (id : NodeId) : Prop :=
  ∃ value, condition { node := id } = .ok value

/-- Of conditions that are asked one after the other, as long as they are true, none fails at a
node. -/
def Decided : List Condition → NodeId → Prop
  | [], _ => True
  | condition :: conditions, id =>
    HasValue condition id ∧ (holds condition id = true → Decided conditions id)

theorem holds_of_ok {condition : Condition} {id : NodeId} {value : Value}
    (h : condition { node := id } = .ok value) : holds condition id = value.toBoolean := by
  rw [holds, h]

variable {rounding : Rounding} {kept : List NodeId}

theorem keepFrom_eq_ok_iff {condition : Condition} (h : Pointwise condition)
    (size position : Nat) : keepFrom rounding condition size position ids = .ok kept ↔
      (∀ id ∈ ids, HasValue condition id) ∧ ids.filter (holds condition) = kept := by
  induction ids generalizing position kept with
  | nil => simp [keepFrom]
  | cons id ids ih =>
      rw [keepFrom, h.node, List.forall_mem_cons, List.filter_cons]
      cases hvalue : condition { node := id } with
      | error err => simp [HasValue, hvalue]
      | ok value =>
          have hhas : HasValue condition id := ⟨value, hvalue⟩
          have hkeeps : keeps rounding position value = holds condition id := by
            rw [holds_of_ok hvalue]
            exact keeps_of_not_number (h.kind hvalue)
          simp only [ok_bind, bind_eq_ok_iff, ih, Except.ok.injEq, hkeeps, hhas, true_and]
          constructor
          · rintro ⟨rest, ⟨hall, rfl⟩, rfl⟩
            exact ⟨hall, rfl⟩
          · rintro ⟨hall, rfl⟩
            exact ⟨_, ⟨hall, rfl⟩, rfl⟩

/-- Conditions without positions filter nodes by what they say of each node. No node is taken from
them where one fails that is asked. -/
theorem keepAll_eq_ok_iff (h : ∀ c ∈ conditions, Pointwise c) :
    keepAll rounding conditions ids = .ok kept ↔ (∀ id ∈ ids, Decided conditions id) ∧
      (ids.filter fun id => conditions.all fun c => holds c id) = kept := by
  induction conditions generalizing ids with
  | nil =>
      have hall : (ids.filter fun id => [].all fun c => holds c id) = ids :=
        List.filter_eq_self.mpr fun _ _ => rfl
      rw [keepAll, hall]
      simp [Decided]
  | cons c conditions ih =>
      obtain ⟨hc, hrest⟩ := List.forall_mem_cons.mp h
      rw [keepAll]
      split
      · rename_i hempty
        rw [List.isEmpty_iff.mp hempty]
        simp
      · simp only [keep, bind_eq_ok_iff, keepFrom_eq_ok_iff hc, ih hrest, List.all_cons]
        constructor
        · rintro ⟨_, ⟨hall, rfl⟩, hdecided, rfl⟩
          refine ⟨fun id hid => ⟨hall id hid, fun hholds => ?_⟩, ?_⟩
          · exact hdecided id (List.mem_filter.mpr ⟨hid, hholds⟩)
          · rw [List.filter_filter]
            simp only [Bool.and_comm]
        · rintro ⟨hdecided, rfl⟩
          refine ⟨_, ⟨fun id hid => (hdecided id hid).1, rfl⟩, fun id hid => ?_, ?_⟩
          · obtain ⟨hid, hholds⟩ := List.mem_filter.mp hid
            exact (hdecided id hid).2 hholds
          · rw [List.filter_filter]
            simp only [Bool.and_comm]

theorem decided_of_hasValue {id : NodeId} (h : ∀ c ∈ conditions, HasValue c id) :
    Decided conditions id := by
  induction conditions with
  | nil => trivial
  | cons c conditions ih =>
      obtain ⟨hc, hrest⟩ := List.forall_mem_cons.mp h
      exact ⟨hc, fun _ => ih hrest⟩

theorem Settled.pointwise {condition : Condition} (h : Settled condition) :
    Pointwise condition := by
  obtain ⟨value, hvalue⟩ := h
  refine ⟨fun focus => (hvalue focus).1.trans (hvalue { node := focus.node }).1.symm, ?_⟩
  intro id found hfound
  rw [(hvalue { node := id }).1] at hfound
  cases hfound
  exact (hvalue { node := id }).2

theorem Settled.hasValue {condition : Condition} (h : Settled condition) (id : NodeId) :
    HasValue condition id := by
  obtain ⟨value, hvalue⟩ := h
  exact ⟨value id, (hvalue { node := id }).1⟩

theorem keepAll_eq_filter (h : ∀ c ∈ conditions, Settled c) :
    keepAll rounding conditions ids =
      .ok (ids.filter fun id => conditions.all fun c => holds c id) :=
  (keepAll_eq_ok_iff fun c hc => (h c hc).pointwise).mpr
    ⟨fun id _ => decided_of_hasValue fun c hc => (h c hc).hasValue id, rfl⟩

theorem stepFromEach_eq_flatMap {axis : Axis} {test : ReadyTest}
    (h : ∀ c ∈ conditions, Settled c) :
    stepFromEach v options axis test conditions ids = .ok (ids.flatMap fun id =>
      (candidates v options axis test id).filter fun y => conditions.all fun c => holds c y) := by
  induction ids with
  | nil => rfl
  | cons id ids ih =>
      rw [stepFromEach, keepAll_eq_filter h, ok_bind, ih, ok_bind, List.flatMap_cons]

/-- A step with predicates that ask for no position selects in document order the nodes on the axis
that pass the test and that all predicates hold at. -/
theorem lists_step (v : View) (options : QueryOptions) (axis : Axis) (test : ReadyTest)
    {q : NodeId → Prop}
    (h : ∀ c ∈ conditions, Settled c) (hids : ∀ x, x ∈ ids ↔ q x) :
    ∃ kept, step v options axis test conditions ids = .ok kept ∧
      Lists kept fun y => (∃ x, q x ∧ y ∈ v.along axis x) ∧ test.fits v options.aliases y = true ∧
        ∀ c ∈ conditions, holds c y = true := by
  refine ⟨_, by rw [step, stepFromEach_eq_flatMap h, ok_bind], (lists_documentOrder _).congr ?_⟩
  intro y
  simp only [candidates, List.mem_flatMap, List.mem_filter, List.all_eq_true, hids]
  constructor
  · rintro ⟨x, hx, ⟨hy, hfits⟩, hholds⟩
    exact ⟨⟨x, hx, hy⟩, hfits, hholds⟩
  · rintro ⟨⟨x, hx, hy⟩, hfits, hholds⟩
    exact ⟨x, hx, ⟨hy, hfits⟩, hholds⟩

end Selection

/-! ## Steady expressions -/

namespace Expr

/-- The expression has a value at every focus, which depends on the node alone and is of a kind. -/
def Steady (v : View) (options : QueryOptions) (q : Value → Prop) (e : Expr) : Prop :=
  ∃ value : NodeId → Value, ∀ focus, e.eval v options focus = .ok (value focus.node) ∧
    q (value focus.node)

/-- A value of any kind. -/
abbrev AnyKind (_ : Value) : Prop := True

variable {p q : Value → Prop} {e left right : Expr}

theorem Steady.mono (h : e.Steady v options p) (hpq : ∀ value, p value → q value) :
    e.Steady v options q := by
  obtain ⟨value, hvalue⟩ := h
  exact ⟨value, fun focus => ⟨(hvalue focus).1, hpq _ (hvalue focus).2⟩⟩

theorem Steady.any (h : e.Steady v options p) : e.Steady v options AnyKind :=
  h.mono fun _ _ => trivial

theorem steady_string {text : String} : (string text).Steady v options AnyKind :=
  ⟨fun _ => .string text, fun focus => ⟨by simp only [eval], trivial⟩⟩

theorem steady_number {n : Number} : (number n).Steady v options AnyKind :=
  ⟨fun _ => .number n, fun focus => ⟨by simp only [eval], trivial⟩⟩

/-- The nodes on an axis that pass a test and that predicates hold at. -/
def chosen (v : View) (options : QueryOptions) (axis : Axis) (test : NodeTest)
    (predicates : List Expr) (id : NodeId) : List NodeId :=
  documentOrder ((Selection.candidates v options axis (test.ready axis) id).filter fun y =>
    (conditions v options predicates).all fun c => Selection.holds c y)

theorem mem_chosen {axis : Axis} {test : NodeTest} {predicates : List Expr} {id y : NodeId} :
    y ∈ chosen v options axis test predicates id ↔
      (y ∈ v.along axis id ∧ (test.ready axis).fits v options.aliases y = true) ∧
        ∀ c ∈ conditions v options predicates, Selection.holds c y = true := by
  rw [chosen, (lists_documentOrder _).mem_iff, List.mem_filter, Selection.candidates,
    List.mem_filter, List.all_eq_true]

/-- A path of one step gives the nodes on the axis that pass the test and all predicates. -/
theorem eval_relative_step {axis : Axis} {test : NodeTest} {predicates : List Expr}
    (h : ∀ c ∈ conditions v options predicates, Selection.Settled c) (focus : Focus) :
    (relative [step axis test predicates]).eval v options focus =
      .ok (.nodes (chosen v options axis test predicates focus.node)) := by
  rw [eval, evalPath, eval, Selection.step, Selection.stepFromEach_eq_flatMap h]
  simp only [ok_bind, Value.toNodes, evalSteps, List.flatMap_cons, List.flatMap_nil,
    List.append_nil, chosen]

theorem steady_relative_step {axis : Axis} {test : NodeTest} {predicates : List Expr}
    (h : ∀ c ∈ conditions v options predicates, Selection.Settled c) :
    (relative [step axis test predicates]).Steady v options (fun value => value.isNodes = true) :=
  ⟨fun id => .nodes (chosen v options axis test predicates id), fun focus =>
    ⟨eval_relative_step h focus, rfl⟩⟩

@[simp] theorem toBoolean_boolean (b : Bool) : (Value.boolean b).toBoolean = b := rfl

theorem hasValue_and_iff {id : NodeId} :
    Selection.HasValue ((binary .and left right).eval v options) id ↔
      Selection.HasValue (left.eval v options) id ∧
        (Selection.holds (left.eval v options) id = true →
          Selection.HasValue (right.eval v options) id) := by
  simp only [Selection.HasValue, Selection.holds, eval]
  cases left.eval v options { node := id } with
  | error err => simp
  | ok l =>
      cases hl : l.toBoolean with
      | false => simp [hl]
      | true =>
          simp only [ok_bind, hl, ↓reduceIte, bind_eq_ok_iff, Except.ok.injEq, exists_eq',
            true_and, forall_const]
          constructor
          · rintro ⟨_, r, hr, -⟩
            exact ⟨r, hr⟩
          · rintro ⟨r, hr⟩
            exact ⟨_, r, hr, rfl⟩

theorem holds_and {id : NodeId} : Selection.holds ((binary .and left right).eval v options) id =
    (Selection.holds (left.eval v options) id && Selection.holds (right.eval v options) id) := by
  simp only [Selection.holds, eval]
  cases left.eval v options { node := id } with
  | error err => simp
  | ok l =>
      cases hl : l.toBoolean with
      | false => simp [hl]
      | true =>
          cases right.eval v options { node := id } with
          | error err => simp [hl]
          | ok r => simp [hl]

/-- Where both operands have values, an operator gives what it makes of them, also one that would
not look at the right one. -/
theorem eval_binary (op : BinaryOp) {focus : Focus} {l r : Value}
    (hl : left.eval v options focus = .ok l) (hr : right.eval v options focus = .ok r) :
    (binary op left right).eval v options focus = .ok (op.apply v l r) := by
  rw [eval.eq_def]
  cases op with
  | and | or =>
      simp only [hl, hr, ok_bind, BinaryOp.apply]
      cases l.toBoolean <;> rfl
  | _ => simp only [hl, hr, ok_bind]

theorem steady_binary {op : BinaryOp} {k : Value → Prop} (hleft : left.Steady v options p)
    (hright : right.Steady v options q) (hk : ∀ l r, k (op.apply v l r)) :
    (binary op left right).Steady v options k := by
  obtain ⟨l, hl⟩ := hleft
  obtain ⟨r, hr⟩ := hright
  exact ⟨fun id => op.apply v (l id) (r id), fun focus =>
    ⟨eval_binary op (hl focus).1 (hr focus).1, hk _ _⟩⟩

theorem steady_operation (op : BinaryOp) (hleft : left.Steady v options p)
    (hright : right.Steady v options q) : (binary op left right).Steady v options AnyKind :=
  steady_binary hleft hright fun _ _ => trivial

/-! ## Calls -/

theorem evalArgs_cons {focus : Focus} {arg : Expr} {args : List Expr} {value : Value}
    {values : List Value} (h : arg.eval v options focus = .ok value)
    (hargs : evalArgs v options args focus = .ok values) :
    evalArgs v options (arg :: args) focus = .ok (value :: values) := by
  rw [evalArgs, h, ok_bind, hargs, ok_bind]

theorem steady_evalArgs {args : List Expr} (h : ∀ arg ∈ args, arg.Steady v options q) :
    ∃ values : NodeId → List Value, ∀ focus,
      evalArgs v options args focus = .ok (values focus.node) ∧
        (values focus.node).length = args.length ∧ ∀ value ∈ values focus.node, q value := by
  induction args with
  | nil => exact ⟨fun _ => [], fun _ => ⟨rfl, rfl, by simp⟩⟩
  | cons arg args ih =>
      obtain ⟨harg, hargs⟩ := List.forall_mem_cons.mp h
      obtain ⟨value, hvalue⟩ := harg
      obtain ⟨values, hvalues⟩ := ih hargs
      refine ⟨fun id => value id :: values id, fun focus => ⟨?_, ?_, ?_⟩⟩
      · exact evalArgs_cons (hvalue focus).1 (hvalues focus).1
      · rw [List.length_cons, (hvalues focus).2.1, List.length_cons]
      · exact List.forall_mem_cons.mpr ⟨(hvalue focus).2, (hvalues focus).2.2⟩

theorem eval_call (f : Function) {focus : Focus} {args : List Expr} {values : List Value}
    (h : evalArgs v options args focus = .ok values) :
    (call f.title args).eval v options focus = f.call v focus values := by
  rw [eval, Function.ofTitle?_title]
  change (evalArgs v options args focus >>= fun values => f.call v focus values) = _
  rw [h, ok_bind]

/-- A function that does not ask for the focus, with arguments that it takes. -/
theorem steady_call {f : Function} {args : List Expr} (h : ∀ arg ∈ args, arg.Steady v options p)
    (hcall : ∀ values : List Value, values.length = args.length → (∀ value ∈ values, p value) →
      ∃ value, q value ∧ ∀ focus, f.call v focus values = .ok value) :
    (call f.title args).Steady v options q := by
  obtain ⟨values, hvalues⟩ := steady_evalArgs h
  have hresult : ∀ id, ∃ value, q value ∧ ∀ focus, f.call v focus (values id) = .ok value :=
    fun id => hcall (values id) (hvalues { node := id }).2.1 (hvalues { node := id }).2.2
  choose result hq hresult using hresult
  refine ⟨result, fun focus => ⟨?_, hq focus.node⟩⟩
  rw [eval_call f (hvalues focus).1, hresult]

theorem steady_call_one (f : Function) {a : Expr} (ha : a.Steady v options p)
    (hcall : ∀ x, p x → ∃ value, q value ∧ ∀ focus, f.call v focus [x] = .ok value) :
    (call f.title [a]).Steady v options q := by
  refine steady_call (by simpa using ha) fun values hlength hall => ?_
  obtain ⟨x, rfl⟩ := List.length_eq_one_iff.mp hlength
  exact hcall x (hall x (by simp))

theorem steady_call_two (f : Function) {a b : Expr} (ha : a.Steady v options p)
    (hb : b.Steady v options p)
    (hcall : ∀ x y, ∃ value, q value ∧ ∀ focus, f.call v focus [x, y] = .ok value) :
    (call f.title [a, b]).Steady v options q := by
  refine steady_call (by simpa using ⟨ha, hb⟩) fun values hlength _ => ?_
  obtain ⟨x, rest, rfl⟩ := List.exists_cons_of_length_eq_add_one hlength
  obtain ⟨y, rfl⟩ := List.length_eq_one_iff.mp (Nat.succ.inj hlength)
  exact hcall x y

/-! ## Steps one after the other -/

theorem evalSteps_nil (parts : List Expr) : evalSteps v options parts [] = .ok [] := by
  cases parts with
  | nil => rfl
  | cons part parts => cases part <;> rfl

theorem evalSteps_cons (axis : Axis) (test : NodeTest) (predicates rest : List Expr)
    (ids : List NodeId) :
    evalSteps v options (step axis test predicates :: rest) ids =
      Selection.step v options axis (test.ready axis) (conditions v options predicates) ids >>=
        evalSteps v options rest := by
  rw [evalSteps]
  cases ids with
  | nil =>
      have hstep : Selection.step v options axis (test.ready axis)
          (conditions v options predicates) [] = .ok [] := by
        simp [Selection.step, Selection.stepFromEach, documentOrder, List.eraseReps,
          List.eraseRepsBy]
      rw [hstep, ok_bind, evalSteps_nil]
      rfl
  | cons id ids => rfl

theorem conditions_eq_map (predicates : List Expr) :
    conditions v options predicates = predicates.map fun e => e.eval v options := by
  induction predicates with
  | nil => rfl
  | cons e predicates ih => rw [conditions, ih, List.map_cons]

end Expr

end TreeQuery
