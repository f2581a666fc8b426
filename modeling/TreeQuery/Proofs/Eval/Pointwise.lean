import Mathlib.Data.List.Permutation
import TreeQuery.Proofs.Eval.Starts

/-!
Predicates that ask for no position. Outside of predicates of its own such an expression depends on
the node in focus alone, so it says the same of a node whatever other nodes are under test. Two of
them, one after the other, are their conjunction, failures included, and where neither fails their
order does not matter.
-/
namespace TreeQuery

/-! ## Expressions without positions -/

/-- A function that is not asked for the place in focus gives the same at all foci of a node. -/
theorem Function.call_of_node (v : View) {f : Function} {args : List Value}
    (h : args = [] → f ≠ .last ∧ f ≠ .position) (focus : Focus) :
    f.call v focus args = f.call v { node := focus.node } args := by
  obtain ⟨node, position, size⟩ := focus
  rcases args with _ | ⟨a, _ | ⟨b, _ | ⟨c, _ | ⟨d, args⟩⟩⟩⟩
  · obtain ⟨hlast, hposition⟩ := h rfl
    cases f with
    | last => exact absurd rfl hlast
    | position => exact absurd rfl hposition
    | _ => rfl
  all_goals cases f <;> rfl

namespace Expr

/-- A call of `last()` or `position()`. -/
def asksPosition : Expr → Bool
  | call name [] => name == Function.last.title || name == Function.position.title
  | _ => false

/-- The direct parts that are evaluated at the focus of the whole. Predicates have foci of their
own. -/
def inFocus : Expr → List Expr
  | step _ _ _ => []
  | filter primary _ => [primary]
  | e => e.children

/-- Nothing asks for a position, except in predicates. -/
inductive PositionFree : Expr → Prop where
  | intro {e : Expr} (here : e.asksPosition = false)
      (parts : ∀ part ∈ e.inFocus, PositionFree part) : PositionFree e

variable {v : View} {options : QueryOptions}

theorem evalArgs_of_node {args : List Expr} {focus : Focus}
    (h : ∀ arg ∈ args, arg.eval v options focus = arg.eval v options { node := focus.node }) :
    evalArgs v options args focus = evalArgs v options args { node := focus.node } := by
  induction args with
  | nil => rfl
  | cons arg args ih =>
      obtain ⟨harg, hargs⟩ := List.forall_mem_cons.mp h
      rw [evalArgs, evalArgs, harg, ih hargs]

theorem evalArgs_eq_nil {args : List Expr} {focus : Focus}
    (h : evalArgs v options args focus = .ok []) : args = [] := by
  cases args with
  | nil => rfl
  | cons arg args => simp [evalArgs, bind_eq_ok_iff] at h

/-- Without positions, an expression gives the same at all foci of a node. -/
theorem PositionFree.eval_of_node {e : Expr} (h : e.PositionFree) (focus : Focus) :
    e.eval v options focus = e.eval v options { node := focus.node } := by
  induction h with
  | @intro e here _ ih =>
      cases e with
      | absolute parts | step axis test predicates => rfl
      | string text | number value | reference name => rfl
      | relative parts =>
          cases parts with
          | nil => rfl
          | cons first rest =>
              rw [eval, eval, evalPath, evalPath, ih first List.mem_cons_self]
      | filter primary predicates =>
          rw [eval, eval, ih primary List.mem_cons_self]
      | binary op left right =>
          obtain ⟨hleft, hright⟩ := forall_mem_pair.mp ih
          cases op <;> simp only [eval] <;> rw [hleft, hright]
      | union left right =>
          obtain ⟨hleft, hright⟩ := forall_mem_pair.mp ih
          rw [eval, eval, hleft, hright]
      | negate operand =>
          rw [eval, eval, ih operand (List.mem_singleton.mpr rfl)]
      | call name args =>
          rw [eval, eval]
          cases hf : Function.ofTitle? name with
          | none => rfl
          | some f =>
              have hargs : evalArgs v options args focus =
                  evalArgs v options args { node := focus.node } := evalArgs_of_node ih
              rw [← hargs]
              cases hvalues : evalArgs v options args focus with
              | error err => simp only [error_bind]
              | ok values =>
                  simp only [ok_bind]
                  refine Function.call_of_node v (fun hnil => ?_) focus
                  subst hnil
                  obtain rfl := evalArgs_eq_nil hvalues
                  have hname : name = f.title := by
                    have hfound := List.find?_some hf
                    exact (beq_iff_eq.mp hfound).symm
                  subst hname
                  constructor <;> rintro rfl <;> cases here

/-- The expression gives no number anywhere. -/
def NeverNumber (v : View) (options : QueryOptions) (e : Expr) : Prop :=
  ∀ focus value, e.eval v options focus = .ok value → value.number? = none

theorem PositionFree.pointwise {e : Expr} (h : e.PositionFree) (hk : e.NeverNumber v options) :
    Selection.Pointwise (e.eval v options) :=
  ⟨h.eval_of_node, fun hvalue => hk _ _ hvalue⟩

theorem positionFree_step {axis : Axis} {test : NodeTest} {predicates : List Expr} :
    (step axis test predicates).PositionFree := .intro rfl (List.forall_mem_nil _)

theorem positionFree_relative {parts : List Expr} (h : ∀ part ∈ parts, part.PositionFree) :
    (relative parts).PositionFree := .intro rfl h

theorem neverNumber_relative {parts : List Expr} : (relative parts).NeverNumber v options := by
  intro focus value h
  simp only [eval, bind_eq_ok_iff, Except.ok.injEq] at h
  obtain ⟨ids, -, rfl⟩ := h
  rfl

variable {p q : Expr}

theorem positionFree_and (hp : p.PositionFree) (hq : q.PositionFree) :
    (binary .and p q).PositionFree := .intro rfl (forall_mem_pair.mpr ⟨hp, hq⟩)

theorem neverNumber_and : (binary .and p q).NeverNumber v options := by
  intro focus value h
  simp only [eval, bind_eq_ok_iff] at h
  obtain ⟨l, -, h⟩ := h
  cases hl : l.toBoolean with
  | false =>
      rw [if_neg (by simp [hl])] at h
      cases h
      rfl
  | true =>
      rw [if_pos hl] at h
      obtain ⟨r, -, h⟩ := bind_eq_ok_iff.mp h
      cases h
      rfl

end Expr

/-! ## Predicates one after the other -/

namespace Selection

variable {v : View} {options : QueryOptions} {conditions conditions' : List Condition}
  {ids : List NodeId}

theorem keepAll_append (rounding : Rounding) (conditions more : List Condition)
    (ids : List NodeId) : keepAll rounding (conditions ++ more) ids =
      keepAll rounding conditions ids >>= keepAll rounding more := by
  induction conditions generalizing ids with
  | nil => rfl
  | cons c conditions ih =>
      rw [List.cons_append, keepAll, keepAll]
      split
      · cases more <;> rfl
      · simp only [ih, bind_assoc]

/-- Conditions without positions keep the same nodes where they are decided, and true, at the same
ones. -/
theorem concur_keepAll {rounding : Rounding} (h : ∀ c ∈ conditions, Pointwise c)
    (h' : ∀ c ∈ conditions', Pointwise c)
    (hdecided : ∀ id ∈ ids, Decided conditions id ↔ Decided conditions' id)
    (hholds : ∀ id, (conditions.all fun c => holds c id) = conditions'.all fun c => holds c id) :
    Concur (keepAll rounding conditions ids) (keepAll rounding conditions' ids) := by
  rw [concur_iff]
  intro kept
  rw [keepAll_eq_ok_iff h, keepAll_eq_ok_iff h']
  simp only [hholds]
  exact and_congr_left' (forall₂_congr hdecided)

/-- A step with conditions without positions, told by the nodes under test. -/
theorem step_eq_ok_iff_of_pointwise {axis : Axis} {test : ReadyTest} {kept : List NodeId}
    (h : ∀ c ∈ conditions, Pointwise c) : step v options axis test conditions ids = .ok kept ↔
      (∀ x ∈ ids, ∀ y ∈ candidates v options axis test x, Decided conditions y) ∧
        Lists kept fun y => (∃ x ∈ ids, y ∈ candidates v options axis test x) ∧
          (conditions.all fun c => holds c y) = true := by
  have hfrom : ∀ x here, stepFrom v options axis test conditions x = .ok here ↔
      (∀ y ∈ candidates v options axis test x, Decided conditions y) ∧
        ((candidates v options axis test x).filter fun y => conditions.all fun c => holds c y) =
          here := fun x here => keepAll_eq_ok_iff h
  simp only [step_eq_ok_iff, hfrom, exists_and_left, exists_eq', and_true]
  refine and_congr_right fun hdecided => Lists.congr_iff fun y => ?_
  simp only [Selects, hfrom]
  constructor
  · rintro ⟨x, hx, _, ⟨-, rfl⟩, hy⟩
    obtain ⟨hy, hholds⟩ := List.mem_filter.mp hy
    exact ⟨⟨x, hx, hy⟩, hholds⟩
  · rintro ⟨⟨x, hx, hy⟩, hholds⟩
    exact ⟨x, hx, _, ⟨hdecided x hx, rfl⟩, List.mem_filter.mpr ⟨hy, hholds⟩⟩

/-- Steps that put the same nodes under test do alike, however these are spread over the nodes that
they start from. -/
theorem concur_step_of_candidates {axis axis' : Axis} {test test' : ReadyTest}
    {ids' : List NodeId} (h : ∀ c ∈ conditions, Pointwise c)
    (hsame : ∀ y, (∃ x ∈ ids, y ∈ candidates v options axis test x) ↔
      ∃ x ∈ ids', y ∈ candidates v options axis' test' x) :
    Concur (step v options axis test conditions ids)
      (step v options axis' test' conditions ids') := by
  rw [concur_iff]
  intro kept
  rw [step_eq_ok_iff_of_pointwise h, step_eq_ok_iff_of_pointwise h]
  refine and_congr ?_ (Lists.congr_iff fun y => and_congr_left' (hsame y))
  constructor
  · intro hdecided x' hx' y hy'
    obtain ⟨x, hx, hy⟩ := (hsame y).mpr ⟨x', hx', hy'⟩
    exact hdecided x hx y hy
  · intro hdecided x hx y hy
    obtain ⟨x', hx', hy'⟩ := (hsame y).mp ⟨x, hx, hy⟩
    exact hdecided x' hx' y hy'

end Selection

section
variable {v : View} {options : QueryOptions} {p q : Expr}
  (hp : p.PositionFree) (hq : q.PositionFree)
  (hpk : p.NeverNumber v options) (hqk : q.NeverNumber v options)
include hp hq hpk hqk

open Selection (keepAll stepFrom Selects Pointwise HasValue)

theorem pointwise_pair : ∀ c ∈ [p.eval v options, q.eval v options], Pointwise c :=
  List.forall_mem_cons.mpr ⟨hp.pointwise hpk, List.forall_mem_singleton.mpr (hq.pointwise hqk)⟩

theorem concur_keepAll_and (rounding : Rounding) (ps : List Expr) (ids : List NodeId) :
    Concur (keepAll rounding (Expr.conditions v options (ps ++ [p, q])) ids)
      (keepAll rounding (Expr.conditions v options (ps ++ [.binary .and p q])) ids) := by
  have hand : Pointwise ((Expr.binary .and p q).eval v options) :=
    (Expr.positionFree_and hp hq).pointwise Expr.neverNumber_and
  simp only [Expr.conditions_eq_map, List.map_append, Selection.keepAll_append]
  refine (Concur.refl _).bind fun base _ => Selection.concur_keepAll (pointwise_pair hp hq hpk hqk)
    (List.forall_mem_singleton.mpr hand) (fun id _ => ?_) fun id => ?_
  · simp [Selection.Decided, Expr.hasValue_and_iff]
  · simp [Expr.holds_and]

theorem concur_keepAll_swap (rounding : Rounding) (ps : List Expr) (ids : List NodeId)
    (h : ∀ base, keepAll rounding (Expr.conditions v options ps) ids = .ok base →
      ∀ y ∈ base, HasValue (p.eval v options) y ∧ HasValue (q.eval v options) y) :
    Concur (keepAll rounding (Expr.conditions v options (ps ++ [p, q])) ids)
      (keepAll rounding (Expr.conditions v options (ps ++ [q, p])) ids) := by
  simp only [Expr.conditions_eq_map, List.map_append, Selection.keepAll_append]
  rw [Expr.conditions_eq_map] at h
  refine (Concur.refl _).bind fun base hbase => Selection.concur_keepAll
    (pointwise_pair hp hq hpk hqk) (pointwise_pair hq hp hqk hpk) (fun id hid => ?_) fun id => ?_
  · obtain ⟨hpid, hqid⟩ := h base hbase id hid
    simp [Selection.Decided, hpid, hqid]
  · simp [Bool.and_comm]

/-- Where neither of two predicates fails, they keep something when those before them do. -/
theorem exists_keepAll_pair (rounding : Rounding) (ps : List Expr) (ids : List NodeId)
    {base : List NodeId}
    (hbase : keepAll rounding (Expr.conditions v options ps) ids = .ok base)
    (h : ∀ y ∈ base, HasValue (p.eval v options) y ∧ HasValue (q.eval v options) y) :
    ∃ kept, keepAll rounding (Expr.conditions v options (ps ++ [p, q])) ids = .ok kept := by
  rw [Expr.conditions_eq_map] at hbase
  simp only [Expr.conditions_eq_map, List.map_append, Selection.keepAll_append, hbase, ok_bind]
  refine ⟨_, (Selection.keepAll_eq_ok_iff (pointwise_pair hp hq hpk hqk)).mpr ⟨?_, rfl⟩⟩
  intro y hy
  obtain ⟨hpy, hqy⟩ := h y hy
  exact ⟨hpy, fun _ => ⟨hqy, fun _ => trivial⟩⟩

/-! ## Predicates of steps -/

theorem concur_step_and (axis : Axis) (test : ReadyTest) (ps : List Expr) (ids : List NodeId) :
    Concur (Selection.step v options axis test (Expr.conditions v options (ps ++ [p, q])) ids)
      (Selection.step v options axis test
        (Expr.conditions v options (ps ++ [.binary .and p q])) ids) :=
  Selection.concur_step fun _ _ => concur_keepAll_and hp hq hpk hqk options.rounding ps _

variable {axis : Axis} {test : ReadyTest} {ps : List Expr} {ids : List NodeId}

theorem concur_step_swap
    (h : ∀ y, Selects v options axis test (Expr.conditions v options ps) ids y →
      HasValue (p.eval v options) y ∧ HasValue (q.eval v options) y) :
    Concur (Selection.step v options axis test (Expr.conditions v options (ps ++ [p, q])) ids)
      (Selection.step v options axis test (Expr.conditions v options (ps ++ [q, p])) ids) :=
  Selection.concur_step fun x hx => concur_keepAll_swap hp hq hpk hqk options.rounding ps _
    fun base hbase y hy => h y ⟨x, hx, base, hbase, hy⟩

theorem exists_step_pair {base : List NodeId}
    (hbase : Selection.step v options axis test (Expr.conditions v options ps) ids = .ok base)
    (h : ∀ y, Selects v options axis test (Expr.conditions v options ps) ids y →
      HasValue (p.eval v options) y ∧ HasValue (q.eval v options) y) :
    ∃ kept, Selection.step v options axis test
      (Expr.conditions v options (ps ++ [p, q])) ids = .ok kept := by
  have hfrom : ∀ x ∈ ids, ∃ here,
      stepFrom v options axis test (Expr.conditions v options (ps ++ [p, q])) x = .ok here := by
    intro x hx
    obtain ⟨here, hhere⟩ := (Selection.step_eq_ok_iff.mp hbase).1 x hx
    exact exists_keepAll_pair hp hq hpk hqk options.rounding ps _ hhere
      fun y hy => h y ⟨x, hx, here, hhere, hy⟩
  obtain ⟨all, hall⟩ := Selection.exists_stepFromEach hfrom
  exact ⟨documentOrder all, by rw [Selection.step, hall, ok_bind]⟩

end

/-- Two predicates without positions and numbers, behind any others: one after the other they select
what their conjunction does or fail with it, and where neither fails they may change places. In
steps as in filters. -/
theorem predicates_without_positions (v : View) (options : QueryOptions) {p q : Expr}
    (hp : p.PositionFree) (hq : q.PositionFree)
    (hpk : p.NeverNumber v options) (hqk : q.NeverNumber v options) :
    let NeitherFails (y : NodeId) : Prop :=
      Selection.HasValue (p.eval v options) y ∧ Selection.HasValue (q.eval v options) y
    (∀ axis (test : NodeTest) ps ids,
      let step predicates := Selection.step v options axis (test.ready axis)
        (Expr.conditions v options predicates) ids
      Concur (step (ps ++ [p, q])) (step (ps ++ [.binary .and p q])) ∧
        ((∀ y, Selection.Selects v options axis (test.ready axis)
            (Expr.conditions v options ps) ids y → NeitherFails y) →
          Concur (step (ps ++ [p, q])) (step (ps ++ [q, p])) ∧
            ∀ base, step ps = .ok base → ∃ kept, step (ps ++ [p, q]) = .ok kept)) ∧
      ∀ primary ps focus,
        let filter predicates := (Expr.filter primary predicates).eval v options focus
        Concur (filter (ps ++ [p, q])) (filter (ps ++ [.binary .and p q])) ∧
          ((∀ base, filter ps = .ok (.nodes base) → ∀ y ∈ base, NeitherFails y) →
            Concur (filter (ps ++ [p, q])) (filter (ps ++ [q, p])) ∧
              ∀ base, filter ps = .ok (.nodes base) →
                ∃ kept, filter (ps ++ [p, q]) = .ok (.nodes kept)) := by
  intro NeitherFails
  constructor
  · intro axis test ps ids step
    refine ⟨concur_step_and hp hq hpk hqk axis _ ps ids, fun h => ⟨?_, fun base hbase => ?_⟩⟩
    · exact concur_step_swap hp hq hpk hqk h
    · exact exists_step_pair hp hq hpk hqk hbase h
  · intro primary ps focus filter
    have hfilter : ∀ predicates, filter predicates =
        (primary.eval v options focus >>= Value.toNodes) >>= fun ids =>
          Selection.keepAll options.rounding (Expr.conditions v options predicates) ids >>=
            fun kept => .ok (.nodes kept) := by
      intro predicates
      simp only [filter, Expr.eval, bind_assoc]
    simp only [hfilter]
    refine ⟨(Concur.refl _).bind fun ids _ => ?_, fun h => ⟨?_, fun base hbase => ?_⟩⟩
    · exact (concur_keepAll_and hp hq hpk hqk options.rounding ps ids).bind fun _ _ => .refl _
    · refine (Concur.refl _).bind fun ids hids => ?_
      refine (concur_keepAll_swap hp hq hpk hqk options.rounding ps ids fun base hbase => ?_).bind
        fun _ _ => .refl _
      exact h base (by rw [hids, ok_bind, hbase, ok_bind])
    · obtain ⟨ids, hids, hbase'⟩ := bind_eq_ok_iff.mp hbase
      obtain ⟨base', hbase'', hsame⟩ := bind_eq_ok_iff.mp hbase'
      cases hsame
      obtain ⟨kept, hkept⟩ :=
        exists_keepAll_pair hp hq hpk hqk options.rounding ps ids hbase'' (h base hbase)
      exact ⟨kept, by rw [hids, ok_bind, hkept, ok_bind]⟩

/-- Elements with something in them and something behind them, by a step and by a filter. -/
theorem predicates_without_positions_of_paths :
    let v := (Document.ofEvents
      [.start "r" [], .start "a" [], .empty "b" [], .close, .empty "c" [], .close]).view
    let p := Expr.relative [.step .child .node []]
    let q := Expr.relative [.step .followingSibling .node []]
    let NeitherFails (y : NodeId) : Prop :=
      Selection.HasValue (p.eval v {}) y ∧ Selection.HasValue (q.eval v {}) y
    let step predicates := Selection.step v {} .descendant (NodeTest.node.ready .descendant)
      (Expr.conditions v {} predicates) [0, 1]
    let filter predicates := (Expr.filter p predicates).eval v {} { node := 1 }
    (p.PositionFree ∧ q.PositionFree ∧ p.NeverNumber v {} ∧ q.NeverNumber v {}) ∧
      (∀ y, NeitherFails y) ∧ step [p, q] = .ok [2] ∧ step [.binary .and p q] = .ok [2] ∧
      Concur (step [p, q]) (step [.binary .and p q]) ∧ Concur (step [p, q]) (step [q, p]) ∧
      Concur (filter [p, q]) (filter [.binary .and p q]) ∧
      Concur (filter [p, q]) (filter [q, p]) := by
  have hfree : ∀ axis, (Expr.relative [.step axis .node []]).PositionFree := fun axis =>
    Expr.positionFree_relative (List.forall_mem_singleton.mpr Expr.positionFree_step)
  have hvalue : ∀ v axis y, Selection.HasValue
      ((Expr.relative [.step axis .node []]).eval v {}) y := by
    intro v axis y
    exact ⟨_, Expr.eval_relative_step (by simp [Expr.conditions]) { node := y }⟩
  obtain ⟨hstep, hfilter⟩ := predicates_without_positions (Document.ofEvents
    [.start "r" [], .start "a" [], .empty "b" [], .close, .empty "c" [], .close]).view {}
    (hfree .child) (hfree .followingSibling) Expr.neverNumber_relative Expr.neverNumber_relative
  obtain ⟨hand, hswap⟩ := hstep .descendant .node [] [0, 1]
  obtain ⟨hand', hswap'⟩ := hfilter (.relative [.step .child .node []]) [] { node := 1 }
  have hboth := fun v y => And.intro (hvalue v .child y) (hvalue v .followingSibling y)
  exact ⟨⟨hfree _, hfree _, Expr.neverNumber_relative, Expr.neverNumber_relative⟩, hboth _,
    by cbv, by cbv, hand,
    (hswap fun y _ => hboth _ y).1, hand', (hswap' fun _ _ y _ => hboth _ y).1⟩

end TreeQuery
