import Mathlib.Algebra.Order.Ring.Int
import TreeQuery.Proofs.Number.Whole
import TreeQuery.Proofs.Selector.Matching

/-!
Series of positions. The condition for a series compares the position with the first place of the
series and takes a remainder, in numbers. As long as these are integers that numbers can be, the
condition is true just at the positions `a·n + b` for natural numbers `n`.
-/
namespace TreeQuery.Selector

open TreeQuery.Expr

/-! ## Integers in a series -/

/-- A position is in a series. -/
def Nth.Includes (series : Nth) (position : Nat) : Prop :=
  ∃ n : Nat, (position : Int) = series.a * n + series.b

section
variable {series : Nth} {p : Nat}

theorem Nth.includes_iff_eq (ha : series.a = 0) : series.Includes p ↔ (p : Int) = series.b := by
  simp [Nth.Includes, ha]

/-- A series that goes on includes what lies in its direction from the first place, at a distance
that its step divides. The remainder of a negative distance is no hindrance: it is zero as well. -/
theorem Nth.includes_iff (ha : series.a ≠ 0) :
    series.Includes p ↔ (if 0 < series.a then series.b ≤ p else (p : Int) ≤ series.b) ∧
      ((p : Int) - series.b).tmod series.a.natAbs = 0 := by
  rw [← Int.dvd_iff_tmod_eq_zero, Int.natAbs_dvd, Nth.Includes]
  constructor
  · rintro ⟨n, hp⟩
    have hdistance : (p : Int) - series.b = series.a * n := by omega
    refine ⟨?_, n, hdistance⟩
    split
    · have := Int.mul_nonneg (Int.le_of_lt ‹0 < series.a›) (Int.natCast_nonneg n)
      omega
    · have := Int.mul_nonpos_of_nonpos_of_nonneg (Int.not_lt.mp ‹¬ 0 < series.a›)
        (Int.natCast_nonneg n)
      omega
  · rintro ⟨hbound, k, hdistance⟩
    -- The first place bounds the position on the side to which the step leads.
    have hk : 0 ≤ k := by
      split at hbound
      · exact nonneg_of_mul_nonneg_right (by omega : 0 ≤ series.a * k) ‹0 < series.a›
      · have hneg : series.a < 0 := by omega
        exact nonneg_of_mul_nonpos_right (by omega : series.a * k ≤ 0) hneg
    obtain ⟨n, rfl⟩ := Int.eq_ofNat_of_zero_le hk
    exact ⟨n, by omega⟩

end

/-! ## Values that are integers, and conditions that say something -/

section
variable {v : View} {options : QueryOptions} {focus : Focus} {e left right : Expr} {i j : Int}
  {p q : Prop}

/-- At a focus the value of an expression is an integer. -/
def GivesWhole (v : View) (options : QueryOptions) (focus : Focus) (e : Expr) (i : Int) : Prop :=
  ∃ x, e.eval v options focus = .ok (.number x) ∧ Number.Whole x i

/-- At a focus an expression says whether something holds. -/
def Says (v : View) (options : QueryOptions) (focus : Focus) (e : Expr) (p : Prop) : Prop :=
  ∃ truth, e.eval v options focus = .ok (.boolean truth) ∧ (truth = true ↔ p)

theorem Says.congr (h : Says v options focus e p) (hpq : p ↔ q) : Says v options focus e q := by
  obtain ⟨truth, heval, hp⟩ := h
  exact ⟨truth, heval, hp.trans hpq⟩

/-- At a focus a condition holds or does not, as an expression and as a program. Its value is no
number, so no position matters. -/
def Decides (v : View) (options : QueryOptions) (focus : Focus) (e : Expr) (p : Prop) : Prop :=
  ∃ value, e.eval v options focus = .ok value ∧ e.compile.run v options focus = .ok value ∧
    value.number? = none ∧ (value.toBoolean = true ↔ p)

theorem Says.decides (h : Says v options focus e p) (he : e.WellFormed) :
    Decides v options focus e p := by
  obtain ⟨truth, heval, hp⟩ := h
  exact ⟨.boolean truth, heval, ((agrees_of_wellFormed he).run focus).trans heval, rfl, hp⟩

theorem Decides.congr (h : Decides v options focus e p) (hpq : p ↔ q) :
    Decides v options focus e q := by
  obtain ⟨value, heval, hrun, hnumber, hp⟩ := h
  exact ⟨value, heval, hrun, hnumber, hp.trans hpq⟩

theorem Decides.trueAt_iff {d : Document} {id : NodeId}
    (h : Decides d.view options { node := id } e p) : TrueAt d options e id ↔ p := by
  obtain ⟨value, heval, _, _, hp⟩ := h
  rw [TrueAt, Expr.evaluate, heval, ← hp]
  simp

theorem givesWhole_integer (hi : i.natAbs ≤ Nat.pow 2 53) :
    GivesWhole v options focus (integer i) i :=
  ⟨Number.ofInt i, by simp only [integer, eval], Number.whole_ofInt hi⟩

theorem GivesWhole.add (hl : GivesWhole v options focus left i)
    (hr : GivesWhole v options focus right j) (hsum : (i + j).natAbs ≤ Nat.pow 2 53) :
    GivesWhole v options focus (.binary .add left right) (i + j) := by
  obtain ⟨x, hx, hwhole⟩ := hl
  obtain ⟨y, hy, hwhole'⟩ := hr
  exact ⟨x + y, eval_binary .add hx hy, hwhole.add hwhole' hsum⟩

theorem GivesWhole.sub (hl : GivesWhole v options focus left i)
    (hr : GivesWhole v options focus right j) (hdifference : (i - j).natAbs ≤ Nat.pow 2 53) :
    GivesWhole v options focus (.binary .sub left right) (i - j) := by
  obtain ⟨x, hx, hwhole⟩ := hl
  obtain ⟨y, hy, hwhole'⟩ := hr
  exact ⟨x - y, eval_binary .sub hx hy, hwhole.sub hwhole' hdifference⟩

theorem GivesWhole.mod (hl : GivesWhole v options focus left i)
    (hr : GivesWhole v options focus right j) (hj : j ≠ 0) :
    GivesWhole v options focus (.binary .mod left right) (i.tmod j) := by
  obtain ⟨x, hx, hwhole⟩ := hl
  obtain ⟨y, hy, hwhole'⟩ := hr
  exact ⟨x % y, eval_binary .mod hx hy, hwhole.rem hwhole' hj⟩

theorem says_eq (hl : GivesWhole v options focus left i) (hr : GivesWhole v options focus right j) :
    Says v options focus (.binary .eq left right) (i = j) := by
  obtain ⟨x, hx, hwhole⟩ := hl
  obtain ⟨y, hy, hwhole'⟩ := hr
  exact ⟨x.eq y, eval_binary .eq hx hy, hwhole.eq_iff hwhole'⟩

theorem says_ge (hl : GivesWhole v options focus left i) (hr : GivesWhole v options focus right j) :
    Says v options focus (.binary .ge left right) (j ≤ i) := by
  obtain ⟨x, hx, hwhole⟩ := hl
  obtain ⟨y, hy, hwhole'⟩ := hr
  exact ⟨y.le x, eval_binary .ge hx hy, hwhole'.le_iff hwhole⟩

theorem says_le (hl : GivesWhole v options focus left i) (hr : GivesWhole v options focus right j) :
    Says v options focus (.binary .le left right) (i ≤ j) := by
  obtain ⟨x, hx, hwhole⟩ := hl
  obtain ⟨y, hy, hwhole'⟩ := hr
  exact ⟨x.le y, eval_binary .le hx hy, hwhole.le_iff hwhole'⟩

theorem Says.and (hl : Says v options focus left p) (hr : Says v options focus right q) :
    Says v options focus (.binary .and left right) (p ∧ q) := by
  obtain ⟨l, hl, hp⟩ := hl
  obtain ⟨r, hr, hq⟩ := hr
  refine ⟨l && r, eval_binary .and hl hr, ?_⟩
  rw [Bool.and_eq_true, hp, hq]

theorem Says.or (hl : Says v options focus left p) (hr : Says v options focus right q) :
    Says v options focus (.binary .or left right) (p ∨ q) := by
  obtain ⟨l, hl, hp⟩ := hl
  obtain ⟨r, hr, hq⟩ := hr
  refine ⟨l || r, eval_binary .or hl hr, ?_⟩
  rw [Bool.or_eq_true, hp, hq]

/-! ## The condition of a series -/

theorem Nth.says_condition {series : Nth} {position : Expr} {k : Nat}
    (ha : Nth.inRange series.a = true) (hb : Nth.inRange series.b = true)
    (h : GivesWhole v options focus position k)
    (hdistance : ((k : Int) - series.b).natAbs ≤ Nat.pow 2 53) :
    Says v options focus (series.condition position) (series.Includes k) := by
  have hfirst : GivesWhole v options focus (integer series.b) series.b :=
    givesWhole_integer (natAbs_le_of_inRange hb)
  rw [condition]
  split
  · rw [includes_iff_eq ‹_›]
    exact says_eq h hfirst
  · rename_i hne
    have hstep : GivesWhole v options focus (integer series.a.natAbs) series.a.natAbs :=
      givesWhole_integer (by rw [Int.natAbs_natCast]; exact natAbs_le_of_inRange ha)
    have hzero : GivesWhole v options focus (integer 0) 0 := givesWhole_integer (Nat.zero_le _)
    have hgap : GivesWhole v options focus
        (if series.b < 0 then .binary .add position (integer (-series.b))
          else .binary .sub position (integer series.b)) (k - series.b) := by
      split
      · rw [Int.sub_eq_add_neg] at hdistance ⊢
        exact h.add (givesWhole_integer (by rw [Int.natAbs_neg]; exact natAbs_le_of_inRange hb))
          hdistance
      · exact h.sub hfirst hdistance
    have hdivides := says_eq (hgap.mod hstep (by omega)) hzero
    rw [includes_iff hne]
    refine Says.and ?_ hdivides
    split
    · exact says_ge h hfirst
    · exact says_le h hfirst

end

/-! ## Siblings that are counted -/

namespace NthKind

/-- The axis to the side from which positions count. -/
def axis : NthKind → Axis
  | child | ofType => .precedingSibling
  | lastChild | lastOfType => .followingSibling

/-- The test for what is counted; `test` tells the elements of the same type. -/
def test (test : NodeTest) : NthKind → NodeTest
  | child | lastChild => .any
  | ofType | lastOfType => test

/-- A node lies to the side of an element from which positions count. -/
def Precedes (kind : NthKind) (y id : NodeId) : Prop :=
  match kind with
  | child | ofType => y < id
  | lastChild | lastOfType => id < y

instance (kind : NthKind) (y id : NodeId) : Decidable (kind.Precedes y id) :=
  match kind with
  | child | ofType => inferInstanceAs (Decidable (y < id))
  | lastChild | lastOfType => inferInstanceAs (Decidable (id < y))

/-- The siblings that the position of an element counts: those to one side that pass the test. -/
def counted (kind : NthKind) (d : Document) (aliases : List (String × String)) (test : NodeTest)
    (id : NodeId) : List NodeId :=
  (List.range d.size).filter fun y =>
    d.view.parent? y == d.view.parent? id && !d.view.isOwned y && kind.Precedes y id &&
      ((kind.test test).ready .self).fits d.view aliases y

theorem mem_counted {kind : NthKind} {d : Document} {aliases : List (String × String)}
    {test : NodeTest} {y id : NodeId} :
    y ∈ kind.counted d aliases test id ↔
      ((d.InTree y ∧ d.view.parent? y = d.view.parent? id) ∧ kind.Precedes y id) ∧
        ((kind.test test).ready .self).fits d.view aliases y = true := by
  rw [counted, List.mem_filter, List.mem_range, Document.InTree]
  simp only [Bool.and_eq_true, Bool.not_eq_true', Bool.not_eq_true, beq_iff_eq, decide_eq_true_iff]
  tauto

/-- The position of an element, one more than the siblings that are counted. -/
def position (kind : NthKind) (d : Document) (aliases : List (String × String)) (test : NodeTest)
    (id : NodeId) : Nat :=
  (kind.counted d aliases test id).length + 1

end NthKind

theorem Structural.condition_nth (kind : NthKind) (series : Nth) (test : NodeTest) :
    (nth kind series).condition test =
      series.condition (positionOn kind.axis (kind.test test)) := by
  cases kind <;> rfl

section
variable {d : Document} {options : QueryOptions} {focus : Focus} {id : NodeId}

theorem mem_along_axis (hd : d.WellBuilt) (hid : d.InTree id) (kind : NthKind) (y : NodeId) :
    y ∈ d.view.along kind.axis id ↔ d.Siblings id y ∧ kind.Precedes y id := by
  cases kind with
  | child | ofType => exact hd.mem_along_iff hid.1 .precedingSibling
  | lastChild | lastOfType => exact hd.mem_along_iff hid.1 .followingSibling

/-- What the path to counted siblings chooses is counted, and nothing else is. -/
theorem chosen_axis (hd : d.WellBuilt) (hid : d.InTree id) {p : NodeId}
    (hp : d.view.parent? id = some p) (kind : NthKind) (test : NodeTest) :
    chosen d.view options kind.axis (kind.test test) [] id =
      kind.counted d options.aliases test id := by
  -- Siblings and the element itself are tested for the same kind of node.
  have hready : (kind.test test).ready kind.axis = (kind.test test).ready .self := by
    cases kind <;> cases test <;> rfl
  have hcounted : Ascending (kind.counted d options.aliases test id) :=
    List.pairwise_lt_range.filter _
  refine (lists_documentOrder _).ascending.ext hcounted fun y => ?_
  rw [← chosen, mem_chosen_plain, mem_along_axis hd hid,
    Document.siblings_iff hid hp, hready, NthKind.mem_counted, hp]

theorem givesWhole_positionOn (hd : d.WellBuilt) (hid : d.InTree focus.node) {p : NodeId}
    (hp : d.view.parent? focus.node = some p) {kind : NthKind} {test : NodeTest}
    (h : kind.position d options.aliases test focus.node ≤ Nat.pow 2 53) :
    GivesWhole d.view options focus (positionOn kind.axis (kind.test test))
      (kind.position d options.aliases test focus.node) := by
  have hcount : GivesWhole d.view options focus (countOf kind.axis (kind.test test))
      (kind.counted d options.aliases test focus.node).length := by
    refine ⟨_, eval_countOf kind.axis (kind.test test) focus, ?_⟩
    rw [chosen_axis hd hid hp]
    exact Number.whole_ofNat (Nat.le_of_succ_le h)
  exact hcount.add (givesWhole_integer (by decide)) h

end

/-- At an element, the condition for a series of positions says whether the position of the element
is in the series, as an expression and as a program: for all steps and first places of 32 bits, in
each direction and for each kind of siblings, as long as position and distance are integers that
numbers can be. -/
theorem Structural.eval_nth (events : List Event) (kind : NthKind) (series : Nth) (test : NodeTest)
    (options : QueryOptions) (focus : Focus) (ha : Nth.inRange series.a = true)
    (hb : Nth.inRange series.b = true)
    (helement : (Document.ofEvents events).kind focus.node = .element) :
    let d := Document.ofEvents events
    let position := kind.position d options.aliases test focus.node
    let condition := (Structural.nth kind series).condition test
    position ≤ Nat.pow 2 53 → ((position : Int) - series.b).natAbs ≤ Nat.pow 2 53 →
      ∃ truth, condition.eval d.view options focus = .ok (.boolean truth) ∧
        condition.compile.run d.view options focus = .ok (.boolean truth) ∧
        (truth = true ↔ ∃ n : Nat, (position : Int) = series.a * n + series.b) := by
  intro d position condition hposition hdistance
  have hd : d.WellBuilt := Document.wellBuilt_ofEvents events
  obtain ⟨p, hp⟩ := hd.exists_parent_of_element helement
  have hwhole : GivesWhole d.view options focus (positionOn kind.axis (kind.test test)) position :=
    givesWhole_positionOn hd (Document.inTree_of_element helement) hp hposition
  obtain ⟨truth, htruth, hiff⟩ := Nth.says_condition ha hb hwhole hdistance
  rw [← condition_nth] at htruth
  have hwellFormed : condition.WellFormed := wellFormed_condition test (.nth kind series)
  exact ⟨truth, htruth, ((agrees_of_wellFormed hwellFormed).run focus).trans htruth, hiff⟩

theorem Structural.eval_nth_backwards :
    let events : List Event :=
      [.start "r" [], .empty "a" [], .empty "b" [], .empty "a" [], .empty "a" [], .close]
    let d := Document.ofEvents events
    let position := NthKind.ofType.position d [] (.name "a") 5
    let condition := (Structural.nth .ofType ⟨-2, 7⟩).condition (.name "a")
    d.kind 5 = .element ∧ position = 3 ∧
      ∃ truth, condition.eval d.view {} { node := 5 } = .ok (.boolean truth) ∧
        condition.compile.run d.view {} { node := 5 } = .ok (.boolean truth) ∧
        (truth = true ↔ ∃ n : Nat, (position : Int) = -2 * n + 7) := by
  intro events d position condition
  have helement : d.kind 5 = .element := by decide
  have hposition : position = 3 := by decide
  have hdistance : ((position : Int) - 7).natAbs ≤ Nat.pow 2 53 := by
    rw [hposition]
    decide
  refine ⟨helement, hposition, ?_⟩
  exact Structural.eval_nth events .ofType ⟨-2, 7⟩ (.name "a") {} { node := 5 } (by decide)
    (by decide) helement (hposition.trans_le (by decide)) hdistance

end TreeQuery.Selector
