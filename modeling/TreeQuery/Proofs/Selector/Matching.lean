import TreeQuery.Proofs.Eval.Steady
import TreeQuery.Proofs.Number.Nearest
import TreeQuery.Proofs.Program.Agreement
import TreeQuery.Proofs.Selector.Named

/-!
What selectors select. A selector is matched by chains of elements, each told by its compound and by
how it lies to the one before it. The expression of a list of selectors always has a value, and it
lists the elements at which chains end; positions do not matter anywhere.
-/
namespace TreeQuery.Selector

open TreeQuery.Expr

variable (d : Document) (options : QueryOptions)

/-! ## Elements that satisfy a compound -/

/-- An expression is true at a node by itself. -/
def TrueAt (e : Expr) (id : NodeId) : Prop :=
  ∃ value, e.evaluate d.view options id = .ok value ∧ value.toBoolean = true

/-- An element passes the test of a compound for its name. -/
def Passes (element : Option TypeSelector) (id : NodeId) : Prop :=
  ((elementTest element).ready .self).fits d.view options.aliases id = true

/-- The first attribute without prefix of the given name has the given value. -/
def HasAttr (name text : String) (id : NodeId) : Prop :=
  ∃ attr, (d.attributes id).find? (fun attr =>
    (d.view.pfx? attr).isNone && d.view.localName? attr == some name) = some attr ∧
      d.view.stringValue attr = text

/-- What the structural pseudo-classes mean; those that count positions are what their conditions
say. -/
def Structural.Holds (test : NodeTest) (id : NodeId) : Structural → Prop
  | root => ∀ p, d.view.parent? id = some p → d.kind p ≠ .element
  | empty => ∀ y, d.InTree y → d.view.parent? y ≠ some id
  | firstChild => ∀ y, d.Siblings id y → d.kind y = .element → ¬ y < id
  | lastChild => ∀ y, d.Siblings id y → d.kind y = .element → ¬ id < y
  | onlyChild => ∀ y, d.Siblings id y → d.kind y = .element → y = id
  | s => TrueAt d options (s.condition test) id

mutual

/-- A filter of a compound with the given test holds for an element. -/
def Filter.Holds (test : NodeTest) (id : NodeId) : Filter → Prop
  | .className text => HasAttr d "class" text id
  | .id text => HasAttr d "id" text id
  | .attr selector => TrueAt d options selector.condition id
  | .structural s => s.Holds d options test id
  | .not element filters =>
    ¬ (Passes d options element id ∧ Filter.AllHold (elementTest element) id filters)

def Filter.AllHold (test : NodeTest) (id : NodeId) : List Filter → Prop
  | [] => True
  | f :: fs => f.Holds test id ∧ Filter.AllHold test id fs

end

/-- An element satisfies a compound. -/
def Compound.Holds (compound : Compound) (id : NodeId) : Prop :=
  Passes d options compound.element id ∧
    Filter.AllHold d options (elementTest compound.element) id compound.filters

/-! ## Chains of elements -/

/-- How the next element of a chain lies to the one before it. -/
def Combinator.Joins (combinator : Combinator) (x y : NodeId) : Prop :=
  match combinator with
  | child => d.view.parent? y = some x
  | descendant => d.view.IsAbove x y

/-- From one element a chain of elements that satisfy the compounds leads to another. -/
inductive Leads : NodeId → List (Combinator × Compound) → NodeId → Prop where
  | refl {x : NodeId} : Leads x [] x
  | cons {x y z : NodeId} {combinator : Combinator} {compound : Compound}
      {tail : List (Combinator × Compound)} (hjoins : combinator.Joins d x y)
      (hholds : compound.Holds d options y) (htail : Leads y tail z) :
      Leads x ((combinator, compound) :: tail) z

/-- The elements that a selector selects from a node: the chain starts at a child. -/
def Complex.Selects (selector : Complex) (id y : NodeId) : Prop :=
  ∃ x, d.view.parent? x = some id ∧ selector.head.Holds d options x ∧
    Leads d options x selector.tail y

variable {d options}

/-! ## Conditions without positions -/

section
variable {v : View} {e attr position : Expr} {axis : Axis} {test : NodeTest}

theorem number?_of_isBoolean {value : Value} (h : value.isBoolean = true) :
    value.number? = none := by
  cases value <;> simp_all [Value.isBoolean, Value.number?]

theorem number?_of_isNodes {value : Value} (h : value.isNodes = true) : value.number? = none := by
  cases value <;> simp_all [Value.isNodes, Value.number?]

theorem steady_stepPath (axis : Axis) (test : NodeTest) :
    (stepPath axis test).Steady v options (fun value => value.isNodes = true) :=
  steady_relative_step (by simp [conditions])

theorem steady_integer (i : Int) : (integer i).Steady v options AnyKind := steady_number

theorem steady_contains {a b : Expr} (ha : a.Steady v options AnyKind)
    (hb : b.Steady v options AnyKind) :
    (call "contains" [a, b]).Steady v options (fun value => value.isBoolean = true) :=
  steady_call_two .contains ha hb fun _ _ => ⟨_, rfl, fun _ => rfl⟩

theorem steady_startsWith {a b : Expr} (ha : a.Steady v options AnyKind)
    (hb : b.Steady v options AnyKind) :
    (call "starts-with" [a, b]).Steady v options (fun value => value.isBoolean = true) :=
  steady_call_two .startsWith ha hb fun _ _ => ⟨_, rfl, fun _ => rfl⟩

theorem steady_concat {args : List Expr} (h : ∀ arg ∈ args, arg.Steady v options AnyKind)
    (hlength : 2 ≤ args.length) : (call "concat" args).Steady v options AnyKind := by
  refine @steady_call v options AnyKind _ .concat args h fun values hvalues _ =>
    ⟨.string (String.join (values.map (·.toString v))), trivial, fun focus => ?_⟩
  rw [Function.call, if_pos (by simp [Function.arity, Arity.admits, hvalues, hlength])]
  rfl

theorem steady_stringLength {a : Expr} (ha : a.Steady v options AnyKind) :
    (call "string-length" [a]).Steady v options AnyKind :=
  steady_call_one .stringLength ha fun x _ =>
    ⟨.ofNat (x.toString v).length, trivial, fun _ => rfl⟩

theorem steady_substring {a b : Expr} (ha : a.Steady v options AnyKind)
    (hb : b.Steady v options AnyKind) : (call "substring" [a, b]).Steady v options AnyKind :=
  steady_call_two .substring ha hb fun _ _ => ⟨_, trivial, fun _ => rfl⟩

theorem steady_not {a : Expr} (ha : a.Steady v options AnyKind) :
    (call "not" [a]).Steady v options (fun value => value.isBoolean = true) :=
  steady_call_one .not ha fun _ _ => ⟨_, rfl, fun _ => rfl⟩

theorem steady_countOf (axis : Axis) (test : NodeTest) :
    (countOf axis test).Steady v options AnyKind := by
  refine steady_call_one .count (steady_stepPath axis test) fun x hx => ?_
  cases x with
  | nodes ids => exact ⟨_, trivial, fun _ => rfl⟩
  | _ => cases hx

theorem AttrOp.steady_condition (op : AttrOp) (text : String) (h : attr.Steady v options AnyKind) :
    (op.condition attr text).Steady v options (fun value => value.isBoolean = true) := by
  have htext : (Expr.string text).Steady v options AnyKind := steady_string
  cases op with
  | equals => exact steady_binary h htext fun _ _ => rfl
  | includes =>
      refine steady_contains (steady_concat ?_ (by simp)) (steady_concat ?_ (by simp))
      · simp [h, steady_string]
      · simp [steady_string]
  | dashMatch =>
      refine steady_binary (steady_operation .eq h htext) (steady_startsWith h ?_) fun _ _ => rfl
      exact steady_concat (by simp [steady_string]) (by simp)
  | startsWith => exact steady_startsWith h htext
  | endsWith =>
      have hdifference :=
        steady_operation .sub (steady_stringLength h) (steady_stringLength htext)
      refine steady_binary (steady_substring h ?_) htext fun _ _ => rfl
      exact steady_operation .add hdifference (steady_integer 1)
  | contains => exact steady_contains h htext

theorem steady_attrEquals (name text : String) :
    (attrEquals name text).Steady v options (fun value => value.isBoolean = true) :=
  steady_binary (steady_stepPath _ _) steady_string fun _ _ => rfl

theorem steady_noneOn (axis : Axis) (test : NodeTest) :
    (noneOn axis test).Steady v options (fun value => value.isBoolean = true) :=
  steady_binary (steady_countOf axis test) (steady_integer 0) fun _ _ => rfl

theorem steady_positionOn (axis : Axis) (test : NodeTest) :
    (positionOn axis test).Steady v options AnyKind :=
  steady_operation .add (steady_countOf axis test) (steady_integer 1)

theorem Nth.steady_condition (series : Nth) (h : position.Steady v options AnyKind) :
    (series.condition position).Steady v options (fun value => value.isBoolean = true) := by
  rw [Nth.condition]
  split
  · exact steady_binary h (steady_integer _) fun _ _ => rfl
  · have hdistance : (if series.b < 0 then binary .add position (integer (-series.b))
        else binary .sub position (integer series.b)).Steady v options AnyKind := by
      split <;> exact steady_operation _ h (steady_integer _)
    have hdivides := steady_operation .eq
      (steady_operation .mod hdistance (steady_integer series.a.natAbs)) (steady_integer 0)
    exact steady_binary (steady_operation _ h (steady_integer _)) hdivides fun _ _ => rfl

theorem Structural.steady_condition (test : NodeTest) (s : Structural) :
    (s.condition test).Steady v options (fun value => value.isBoolean = true) := by
  cases s with
  | root | empty => exact steady_not (steady_stepPath _ _).any
  | firstChild | lastChild | firstOfType | lastOfType => exact steady_noneOn _ _
  | onlyChild | onlyOfType =>
      exact steady_binary (steady_noneOn _ _) (steady_noneOn _ _) fun _ _ => rfl
  | nth kind series => cases kind <;> exact series.steady_condition (steady_positionOn _ _)

theorem AttrSelector.settled_condition (selector : AttrSelector) :
    Selection.Settled (selector.condition.eval v options) := by
  rw [AttrSelector.condition]
  split
  · exact (steady_stepPath _ _).mono fun _ => number?_of_isNodes
  · exact (AttrOp.steady_condition _ _ (steady_stepPath _ _).any).mono
      fun _ => number?_of_isBoolean

mutual

theorem Filter.settled_condition (test : NodeTest) :
    (f : Filter) → Selection.Settled ((f.condition test).eval v options)
  | .className text | .id text => by
      simp only [Filter.condition]
      exact (steady_attrEquals _ text).mono fun _ => number?_of_isBoolean
  | .attr selector => by
      simp only [Filter.condition]
      exact selector.settled_condition
  | .structural s => by
      simp only [Filter.condition]
      exact (s.steady_condition test).mono fun _ => number?_of_isBoolean
  | .not element filters => by
      have hfilters := Filter.settled_conditions (elementTest element) filters
      simp only [Filter.condition]
      exact (steady_not (steady_relative_step hfilters).any).mono fun _ => number?_of_isBoolean

theorem Filter.settled_conditions (test : NodeTest) :
    (fs : List Filter) →
      ∀ c ∈ Expr.conditions v options (Filter.conditions test fs), Selection.Settled c
  | [] => by simp [Filter.conditions, Expr.conditions]
  | f :: fs => by
      simp only [Filter.conditions, Expr.conditions, List.forall_mem_cons]
      exact ⟨f.settled_condition test, Filter.settled_conditions test fs⟩

end

end

/-! ## What conditions say -/

section
variable {e : Expr} {id : NodeId} {value : Value}

theorem holds_iff_trueAt :
    Selection.holds (e.eval d.view options) id = true ↔ TrueAt d options e id := by
  rw [Selection.holds, TrueAt, Expr.evaluate]
  cases e.eval d.view options { node := id } <;> simp

theorem eval_stepPath (axis : Axis) (test : NodeTest) (focus : Focus) :
    (stepPath axis test).eval d.view options focus =
      .ok (.nodes (chosen d.view options axis test [] focus.node)) :=
  eval_relative_step (by simp [conditions]) focus

theorem mem_chosen_plain {axis : Axis} {test : NodeTest} {y : NodeId} :
    y ∈ chosen d.view options axis test [] id ↔
      y ∈ d.view.along axis id ∧ (test.ready axis).fits d.view options.aliases y = true := by
  rw [mem_chosen, and_iff_left (by simp [conditions])]

theorem isEmpty_chosen {axis : Axis} {test : NodeTest} :
    (chosen d.view options axis test [] id).isEmpty = true ↔ ∀ y ∈ d.view.along axis id,
      ¬ (test.ready axis).fits d.view options.aliases y = true := by
  rw [List.isEmpty_iff, List.eq_nil_iff_forall_not_mem]
  simp only [mem_chosen_plain, not_and]

theorem holds_not {predicate : Expr}
    (h : predicate.eval d.view options { node := id } = .ok value) :
    Selection.holds ((call "not" [predicate]).eval d.view options) id = !value.toBoolean := by
  have heval : (call "not" [predicate]).eval d.view options { node := id } =
      .ok (.boolean !value.toBoolean) := by
    rw [eval, show Function.ofTitle? "not" = some .not from rfl]
    simp only [evalArgs, h, ok_bind]
    rfl
  exact Selection.holds_of_ok heval

theorem holds_not_path (axis : Axis) (test : NodeTest) :
    Selection.holds ((call "not" [stepPath axis test]).eval d.view options) id = true ↔
      ∀ y ∈ d.view.along axis id, ¬ (test.ready axis).fits d.view options.aliases y = true := by
  rw [holds_not (eval_stepPath axis test _), ← isEmpty_chosen]
  simp [Value.toBoolean]

theorem eval_countOf (axis : Axis) (test : NodeTest) (focus : Focus) :
    (countOf axis test).eval d.view options focus =
      .ok (.ofNat (chosen d.view options axis test [] focus.node).length) := by
  rw [countOf, eval, show Function.ofTitle? "count" = some .count from rfl]
  simp only [evalArgs, eval_stepPath, ok_bind]
  rfl

theorem eval_noneOn (axis : Axis) (test : NodeTest) (focus : Focus) :
    (noneOn axis test).eval d.view options focus =
      .ok (.boolean (chosen d.view options axis test [] focus.node).isEmpty) := by
  have hcount := @eval_countOf d options axis test focus
  have hzero : (integer 0).eval d.view options focus = .ok (.ofNat 0) := by
    simp only [integer, eval, Value.ofNat]
    rw [← Number.ofInt_natCast]
    rfl
  rw [noneOn, eval_binary .eq hcount hzero]
  refine congrArg (fun b => Except.ok (Value.boolean b)) ?_
  refine (Number.eq_ofNat_zero _).trans ?_
  rw [Bool.eq_iff_iff, decide_eq_true_iff, List.isEmpty_iff, List.length_eq_zero_iff]

theorem holds_noneOn (axis : Axis) (test : NodeTest) :
    Selection.holds ((noneOn axis test).eval d.view options) id = true ↔
      ∀ y ∈ d.view.along axis id, ¬ (test.ready axis).fits d.view options.aliases y = true := by
  rw [Selection.holds_of_ok (eval_noneOn axis test _), ← isEmpty_chosen]
  rfl

end

/-! ## Filters and compounds -/

section
variable (hd : d.WellBuilt) {id : NodeId} (hid : d.InTree id)

theorem fits_any {axis : Axis} {y : NodeId} (haxis : axis.principal = .element) :
    (NodeTest.any.ready axis).fits d.view options.aliases y = true ↔ d.kind y = .element := by
  rw [NodeTest.ready, ReadyTest.fits, haxis, beq_iff_eq]
  rfl

/-- No element is on an axis to one side of a node, told by its siblings. -/
theorem holds_noneOn_siblings {axis : Axis} {R : NodeId → Prop}
    (haxis : axis.principal = .element)
    (halong : ∀ y, y ∈ d.view.along axis id ↔ d.Siblings id y ∧ R y) :
    Selection.holds ((noneOn axis .any).eval d.view options) id = true ↔
      ∀ y, d.Siblings id y → d.kind y = .element → ¬ R y := by
  rw [holds_noneOn]
  refine forall_congr' fun y => ?_
  rw [halong, fits_any haxis]
  exact ⟨fun h hy hkind hside => h ⟨hy, hside⟩ hkind, fun h hy hkind => h hy.1 hkind hy.2⟩

include hd

/-- The path to the attributes of a name leads to all of them that have no prefix. -/
theorem chosen_attributes (name : String) (id : NodeId) :
    chosen d.view options .attributes (.name name) [] id =
      (d.attributes id).filter fun attr =>
        (d.view.pfx? attr).isNone && d.view.localName? attr == some name := by
  have hattrs : Ascending (d.attributes id) := hd.lists_attributes.ascending
  refine (lists_documentOrder _).ascending.ext (hattrs.filter _) fun y => ?_
  rw [← chosen, mem_chosen_plain, List.mem_filter]
  refine and_congr_right fun hy => ?_
  have hkind : d.view.kind y = .attr := ((hd.mem_attributes id y).mp hy).1
  simp [NodeTest.ready, ReadyTest.fits, Axis.principal, hkind]

/-- The condition for a class or an identifier, whose name is not empty. -/
theorem holds_attrEquals {name text : String} (htext : text ≠ "") :
    Selection.holds ((attrEquals name text).eval d.view options) id = true ↔
      HasAttr d name text id := by
  have heval : (attrEquals name text).eval d.view options { node := id } = .ok (.boolean
      ((Value.nodes (chosen d.view options .attributes (.name name) [] id)).toString d.view ==
        text)) := by
    have htext : (Expr.string text).eval d.view options { node := id } = .ok (.string text) := by
      simp only [eval]
    rw [attrEquals, eval_binary .eq (eval_stepPath _ _ _) htext]
    rfl
  rw [Selection.holds_of_ok heval, Value.toBoolean, beq_iff_eq, chosen_attributes hd, HasAttr,
    ← List.head?_filter]
  cases (d.attributes id).filter fun attr =>
      (d.view.pfx? attr).isNone && d.view.localName? attr == some name with
  | nil => simpa [Value.toString] using htext.symm
  | cons attr attrs => simp [Value.toString]

include hid

theorem holds_structural (test : NodeTest) (s : Structural) :
    Selection.holds ((s.condition test).eval d.view options) id = true ↔
      s.Holds d options test id := by
  have hbefore : Selection.holds ((noneOn .precedingSibling .any).eval d.view options) id = true ↔
      ∀ y, d.Siblings id y → d.kind y = .element → ¬ y < id :=
    holds_noneOn_siblings rfl fun _ => hd.mem_along_iff hid.1 .precedingSibling
  have hbehind : Selection.holds ((noneOn .followingSibling .any).eval d.view options) id = true ↔
      ∀ y, d.Siblings id y → d.kind y = .element → ¬ id < y :=
    holds_noneOn_siblings rfl fun _ => hd.mem_along_iff hid.1 .followingSibling
  cases s with
  | root =>
      have hparent : d.view.along .parent id = (d.view.parent? id).toList := rfl
      rw [Structural.condition, holds_not_path, hparent, Structural.Holds]
      refine forall_congr' fun p => ?_
      rw [fits_any rfl, Option.mem_toList]
  | empty =>
      rw [Structural.condition, holds_not_path, Structural.Holds]
      refine forall_congr' fun y => ?_
      rw [hd.mem_along_iff hid.1, Document.OnAxis]
      simp [NodeTest.ready, ReadyTest.fits]
  | firstChild => exact hbefore
  | lastChild => exact hbehind
  | onlyChild =>
      rw [Structural.condition, noneBeside, holds_and,
        Bool.and_eq_true, hbefore, hbehind, Structural.Holds]
      constructor
      · rintro ⟨hnot, hnot'⟩ y hy hkind
        have := hnot y hy hkind
        have := hnot' y hy hkind
        exact Nat.le_antisymm (Nat.le_of_not_lt this) (Nat.le_of_not_lt ‹¬ y < id›)
      · intro h
        exact ⟨fun y hy hkind => by rw [h y hy hkind]; exact Nat.lt_irrefl _,
          fun y hy hkind => by rw [h y hy hkind]; exact Nat.lt_irrefl _⟩
  | firstOfType | lastOfType | onlyOfType | nth => exact holds_iff_trueAt

end

mutual

theorem Filter.holds_condition {id : NodeId} (hd : d.WellBuilt) (hid : d.InTree id)
    (test : NodeTest) : (f : Filter) → f.Named →
      (Selection.holds ((f.condition test).eval d.view options) id = true ↔
        f.Holds d options test id)
  | .className text, hnamed | .id text, hnamed => by
      simp only [Filter.condition, Filter.Holds]
      exact holds_attrEquals hd hnamed
  | .attr selector, _ => by
      simp only [Filter.condition, Filter.Holds]
      exact holds_iff_trueAt
  | .structural s, _ => by
      simp only [Filter.condition, Filter.Holds]
      exact holds_structural hd hid test s
  | .not element filters, hnamed => by
      have hfilters := Filter.holds_conditions hd hid (elementTest element) filters hnamed
      have hself : ∀ y, y ∈ d.view.along .self id ↔ y = id := by
        simp [View.along]
      simp only [Filter.condition, Filter.Holds]
      rw [holds_not (eval_relative_step (Filter.settled_conditions _ filters) _), ← hfilters,
        Passes]
      simp only [Value.toBoolean, Bool.not_not, List.isEmpty_iff, List.eq_nil_iff_forall_not_mem,
        mem_chosen, hself]
      constructor
      · rintro hnone ⟨hpasses, hall⟩
        exact hnone id ⟨⟨rfl, hpasses⟩, hall⟩
      · rintro hnot y ⟨⟨rfl, hpasses⟩, hall⟩
        exact hnot ⟨hpasses, hall⟩

theorem Filter.holds_conditions {id : NodeId} (hd : d.WellBuilt) (hid : d.InTree id)
    (test : NodeTest) : (fs : List Filter) → Filter.AllNamed fs →
      ((∀ c ∈ Expr.conditions d.view options (Filter.conditions test fs),
        Selection.holds c id = true) ↔ Filter.AllHold d options test id fs)
  | [], _ => by simp [Filter.conditions, Expr.conditions, Filter.AllHold]
  | f :: fs, hnamed => by
      simp only [Filter.conditions, Expr.conditions, List.forall_mem_cons, Filter.AllHold]
      exact and_congr (f.holds_condition hd hid test hnamed.1)
        (Filter.holds_conditions hd hid test fs hnamed.2)

end

/-- Tests of compounds ask for elements. -/
theorem kind_of_passes {element : Option TypeSelector} {id : NodeId}
    (h : Passes d options element id) : d.kind id = .element := by
  have hkind : d.view.kind id = .element := by
    rw [Passes] at h
    rcases element with _ | ⟨_ | _ | _, _ | _⟩ <;>
      simp only [elementTest, NamePart.test, NodeTest.ready, ReadyTest.fits, Axis.principal,
        Bool.and_eq_true, beq_iff_eq] at h <;>
      grind
  exact hkind

theorem ready_child_eq_self (test : NodeTest) : test.ready .child = test.ready .self := by
  cases test <;> rfl

/-! ## Chains -/

section
variable (options) (hd : d.WellBuilt) {ids : List NodeId} {q : NodeId → Prop}
include hd

/-- A step to the children that satisfy a compound. -/
theorem lists_childStep {compound : Compound} (hnamed : compound.Named) (hids : Lists ids q)
    (hlt : ∀ x, q x → x < d.size) :
    ∃ kept, Selection.step d.view options .child ((elementTest compound.element).ready .child)
        (conditions d.view options
          (Filter.conditions (elementTest compound.element) compound.filters)) ids = .ok kept ∧
      Lists kept fun y => ∃ x, q x ∧ d.view.parent? y = some x ∧ compound.Holds d options y := by
  obtain ⟨kept, hkept, hlists⟩ :=
    Selection.lists_step d.view options .child ((elementTest compound.element).ready .child)
      (Filter.settled_conditions _ compound.filters) hids.mem_iff
  refine ⟨kept, hkept, hlists.congr fun y => ?_⟩
  rw [ready_child_eq_self, ← Passes]
  constructor
  · rintro ⟨⟨x, hx, hy⟩, hpasses, hall⟩
    obtain ⟨htree, hparent⟩ := (hd.mem_along_iff (hlt x hx) .child).mp hy
    exact ⟨x, hx, hparent, hpasses, (Filter.holds_conditions hd htree _ _ hnamed).mp hall⟩
  · rintro ⟨x, hx, hparent, hpasses, hall⟩
    have htree : d.InTree y := Document.inTree_of_element (kind_of_passes hpasses)
    exact ⟨⟨x, hx, (hd.mem_along_iff (hlt x hx) .child).mpr ⟨htree, hparent⟩⟩,
      hpasses, (Filter.holds_conditions hd htree _ _ hnamed).mpr hall⟩

/-- A step to all elements at or below some elements. -/
theorem lists_anyStep (hids : Lists ids q) (hlt : ∀ x, q x → x < d.size) :
    ∃ kept, Selection.step d.view options .descendantOrSelf (NodeTest.any.ready .descendantOrSelf)
        (conditions d.view options []) ids = .ok kept ∧
      Lists kept fun y => (∃ x, q x ∧ (y = x ∨ d.view.IsAbove x y)) ∧ d.kind y = .element := by
  have hsettled : ∀ c ∈ conditions d.view options [], Selection.Settled c := by simp [conditions]
  obtain ⟨kept, hkept, hlists⟩ := Selection.lists_step d.view options .descendantOrSelf
    (NodeTest.any.ready .descendantOrSelf) hsettled hids.mem_iff
  refine ⟨kept, hkept, hlists.congr fun y => ?_⟩
  have hholds : ∀ c ∈ conditions d.view options [], Selection.holds c y = true := by
    simp [conditions]
  rw [fits_any rfl, and_iff_left hholds]
  refine and_congr_left fun hkind => exists_congr fun x => and_congr_right fun hx => ?_
  have htree : d.InTree y := Document.inTree_of_element hkind
  rw [hd.mem_along_iff (hlt x hx), Document.OnAxis, and_iff_right htree]

/-- From elements, a combinator leads to the elements that it joins to them. -/
theorem lists_combinatorSteps (combinator : Combinator) {compound : Compound} (rest : List Expr)
    (hnamed : compound.Named) (hids : Lists ids q) (helement : ∀ x, q x → d.kind x = .element) :
    ∃ kept, evalSteps d.view options (combinator.steps compound ++ rest) ids =
        evalSteps d.view options rest kept ∧
      Lists kept fun y => ∃ x, q x ∧ combinator.Joins d x y ∧ compound.Holds d options y := by
  have hlt : ∀ x, q x → x < d.size := fun x hx =>
    Document.lt_size_of_kind (by rw [helement x hx]; decide)
  cases combinator with
  | child =>
      obtain ⟨kept, hkept, hlists⟩ := lists_childStep options hd hnamed hids hlt
      refine ⟨kept, ?_, hlists⟩
      rw [Combinator.steps, Compound.step, List.singleton_append, evalSteps_cons, hkept, ok_bind]
  | descendant =>
      obtain ⟨all, hall, hbelow⟩ := lists_anyStep options hd hids hlt
      obtain ⟨kept, hkept, hlists⟩ := lists_childStep options hd hnamed hbelow
        fun x hx => Document.lt_size_of_kind (by rw [hx.2]; decide)
      refine ⟨kept, ?_, hlists.congr fun y => ?_⟩
      · rw [Combinator.steps, Compound.step, List.cons_append, evalSteps_cons, hall, ok_bind,
          List.singleton_append, evalSteps_cons, hkept, ok_bind]
      · constructor
        · rintro ⟨p, ⟨⟨x, hx, hxp⟩, _⟩, hparent, hholds⟩
          refine ⟨x, hx, ?_, hholds⟩
          rcases hxp with rfl | hxp
          · exact .parent hparent
          · exact .up hparent hxp
        · rintro ⟨x, hx, hjoins, hholds⟩
          obtain ⟨p, hparent, hxp⟩ := View.isAbove_iff.mp hjoins
          refine ⟨p, ⟨⟨x, hx, hxp.imp_left Eq.symm⟩, ?_⟩, hparent, hholds⟩
          -- the document node is above nothing but what an element cannot be above
          rcases hd.kind_parent y p hparent with rfl | hkind
          · rcases hxp with rfl | hxp
            · exact helement _ hx
            · exact absurd hxp (View.not_isAbove_of_parent hd.parent?_documentNode)
          · exact hkind

/-- From elements, the steps of a chain lead to the elements at which chains end. -/
theorem lists_tailSteps {tail : List (Combinator × Compound)}
    (hnamed : ∀ next ∈ tail, next.2.Named) (hids : Lists ids q)
    (helement : ∀ x, q x → d.kind x = .element) :
    ∃ kept, evalSteps d.view options
        (tail.flatMap fun (combinator, compound) => combinator.steps compound) ids = .ok kept ∧
      Lists kept fun y => ∃ x, q x ∧ Leads d options x tail y := by
  induction tail generalizing ids q with
  | nil =>
      refine ⟨ids, rfl, hids.congr fun y => ⟨fun hy => ⟨y, hy, .refl⟩, ?_⟩⟩
      rintro ⟨x, hx, ⟨⟩⟩
      exact hx
  | cons next tail ih =>
      obtain ⟨combinator, compound⟩ := next
      obtain ⟨hnext, htail⟩ := List.forall_mem_cons.mp hnamed
      obtain ⟨joined, hjoined, hlists⟩ :=
        lists_combinatorSteps options hd combinator _ hnext hids helement
      obtain ⟨kept, hkept, hends⟩ := ih htail hlists fun x ⟨_, _, _, hholds⟩ =>
        kind_of_passes hholds.1
      refine ⟨kept, ?_, hends.congr fun y => ?_⟩
      · rw [List.flatMap_cons, hjoined, hkept]
      · constructor
        · rintro ⟨z, ⟨x, hx, hjoins, hholds⟩, hleads⟩
          exact ⟨x, hx, .cons hjoins hholds hleads⟩
        · rintro ⟨x, hx, ⟨⟩⟩
          exact ⟨_, ⟨x, hx, ‹_›, ‹_›⟩, ‹_›⟩

/-! ## Selectors -/

omit hd in
theorem lists_singleton (x : NodeId) : Lists [x] (· = x) :=
  ⟨List.pairwise_singleton _ x, by simp⟩

theorem Complex.lists_eval {selector : Complex} (hnamed : selector.Named) {focus : Focus}
    (hfocus : focus.node < d.size) :
    ∃ ids, selector.toExpr.eval d.view options focus = .ok (.nodes ids) ∧
      Lists ids (selector.Selects d options focus.node) := by
  obtain ⟨heads, hheads, hlists⟩ := lists_childStep options hd hnamed.1
    (lists_singleton focus.node) (by rintro x rfl; exact hfocus)
  obtain ⟨ids, hids, hends⟩ := lists_tailSteps options hd hnamed.2 hlists
    fun x ⟨_, _, _, hholds⟩ => kind_of_passes hholds.1
  refine ⟨ids, ?_, hends.congr fun y => ?_⟩
  · rw [Complex.toExpr, eval, evalPath, Compound.step, eval, hheads]
    simp only [ok_bind, Value.toNodes, hids]
  · constructor
    · rintro ⟨x, ⟨_, rfl, hparent, hholds⟩, hleads⟩
      exact ⟨x, hparent, hholds, hleads⟩
    · rintro ⟨x, hparent, hholds, hleads⟩
      exact ⟨x, ⟨_, rfl, hparent, hholds⟩, hleads⟩

omit hd in
theorem lists_union {left right : Expr} {focus : Focus} {l r : List NodeId} {p q : NodeId → Prop}
    (hl : left.eval d.view options focus = .ok (.nodes l)) (hp : Lists l p)
    (hr : right.eval d.view options focus = .ok (.nodes r)) (hq : Lists r q) :
    ∃ ids, (union left right).eval d.view options focus = .ok (.nodes ids) ∧
      Lists ids fun y => p y ∨ q y := by
  refine ⟨documentOrder (l ++ r), ?_, (lists_documentOrder _).congr fun y => ?_⟩
  · rw [eval, hl, ok_bind, hr]
    rfl
  · rw [List.mem_append, hp.mem_iff, hq.mem_iff]

theorem lists_foldl_union {selectors : List Complex}
    (hnamed : ∀ selector ∈ selectors, selector.Named) {focus : Focus}
    (hfocus : focus.node < d.size) {e : Expr} {ids : List NodeId} {q : NodeId → Prop}
    (he : e.eval d.view options focus = .ok (.nodes ids)) (hids : Lists ids q) :
    ∃ ids, ((selectors.map Complex.toExpr).foldl Expr.union e).eval d.view options focus =
        .ok (.nodes ids) ∧
      Lists ids fun y => q y ∨ ∃ selector ∈ selectors, selector.Selects d options focus.node y := by
  induction selectors generalizing e ids q with
  | nil => exact ⟨ids, he, hids.congr fun y => by simp⟩
  | cons selector selectors ih =>
      obtain ⟨hselector, hrest⟩ := List.forall_mem_cons.mp hnamed
      obtain ⟨right, hright, hlists⟩ := Complex.lists_eval options hd hselector hfocus
      obtain ⟨both, hboth, hunion⟩ := lists_union options he hids hright hlists
      obtain ⟨all, hall, hends⟩ := ih hrest hboth hunion
      exact ⟨all, hall, hends.congr fun y => by simp [or_assoc]⟩

end

/-- A list of selectors that is read from a text has a value at each node of a document, as an
expression and as a program: the elements at which chains from the node end, in document order and
each once. -/
theorem lists_toExpr {text : String} {selectors : SelectorList}
    (h : parse text = .ok selectors) (events : List Event) (options : QueryOptions) (focus : Focus)
    (hfocus : focus.node < (Document.ofEvents events).size) :
    let d := Document.ofEvents events
    ∃ e ids, parseToExpr text = .ok e ∧ e.eval d.view options focus = .ok (.nodes ids) ∧
      e.compile.run d.view options focus = .ok (.nodes ids) ∧
      Lists ids fun y => ∃ selector ∈ selectors, selector.Selects d options focus.node y := by
  intro d
  have hd : d.WellBuilt := Document.wellBuilt_ofEvents events
  have htext : parseToExpr text = .ok (toExpr selectors) := by rw [parseToExpr, h]; rfl
  obtain ⟨hne, hnamed⟩ := named_of_parse h
  obtain ⟨first, rest, rfl⟩ := List.exists_cons_of_ne_nil hne
  obtain ⟨hfirst, hrest⟩ := List.forall_mem_cons.mp hnamed
  obtain ⟨start, hstart, hlists⟩ := Complex.lists_eval options hd hfirst hfocus
  obtain ⟨ids, hids, hall⟩ := lists_foldl_union options hd hrest hfocus hstart hlists
  refine ⟨_, ids, htext, hids, ?_, hall.congr fun y => by simp⟩
  exact ((agrees_of_wellFormed (wellFormed_toExpr (first :: rest))).run focus).trans hids

theorem lists_toExpr_chain :
    let d := Document.ofEvents [.start "a" [("class", "x")], .start "b" [], .empty "c" [], .close,
      .close]
    ∃ selectors, parse ".x c:not(b), a > b" = .ok selectors ∧ 0 < d.size ∧
      ∃ e ids, parseToExpr ".x c:not(b), a > b" = .ok e ∧
        e.eval d.view {} { node := 0 } = .ok (.nodes ids) ∧
        e.compile.run d.view {} { node := 0 } = .ok (.nodes ids) ∧
        Lists ids fun y => ∃ selector ∈ selectors, selector.Selects d {} 0 y := by
  have h : ∃ selectors, parse ".x c:not(b), a > b" = .ok selectors := ⟨_, rfl⟩
  obtain ⟨selectors, hparse⟩ := h
  exact ⟨selectors, hparse, by decide, lists_toExpr hparse _ {} { node := 0 } (by decide)⟩

end TreeQuery.Selector
