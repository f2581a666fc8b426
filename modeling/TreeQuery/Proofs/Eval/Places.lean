import TreeQuery.Proofs.Eval.Pointwise
import TreeQuery.Proofs.Number.Whole
import TreeQuery.Proofs.Program.Agreement

/-!
Places along an axis. Every axis lists its nodes in the order in which positions count: forward
axes in document order, reverse axes against it and so from the node outward. A predicate that asks
for one position keeps the node at that place of those that pass the test, whichever way numbers
are rounded to positions.
-/
namespace TreeQuery

open TreeQuery.Expr

/-! ## Nodes that are counted -/

/-- The nodes on an axis that pass a test, in the order in which positions count them. -/
structure Document.Counted (d : Document) (aliases : List (String × String)) (axis : Axis)
    (test : NodeTest) (x : NodeId) (nodes : List NodeId) : Prop where
  pairwise : nodes.Pairwise axis.Before
  mem_iff : ∀ y, y ∈ nodes ↔
    d.OnAxis x axis y ∧ (test.ready axis).fits d.view aliases y = true

/-- Order and members leave one list only. -/
theorem Document.Counted.unique {d : Document} {aliases : List (String × String)} {axis : Axis}
    {test : NodeTest} {x : NodeId} {nodes nodes' : List NodeId}
    (h : d.Counted aliases axis test x nodes) (h' : d.Counted aliases axis test x nodes') :
    nodes = nodes' := by
  have hne : ∀ {a b : Nat}, axis.Before a b → a ≠ b := fun hab heq => (heq ▸ hab).asymm (heq ▸ hab)
  refine List.Perm.eq_of_pairwise (fun a b _ _ hab hba => absurd hba hab.asymm) h.pairwise
    h'.pairwise ((List.perm_ext_iff_of_nodup (h.pairwise.imp hne) (h'.pairwise.imp hne)).mpr ?_)
  exact fun y => (h.mem_iff y).trans (h'.mem_iff y).symm

theorem Document.WellBuilt.counted_candidates {d : Document} (h : d.WellBuilt) {x : Nat}
    (hx : x < d.size) (options : QueryOptions) (axis : Axis) (test : NodeTest) :
    d.Counted options.aliases axis test x
      (Selection.candidates d.view options axis (test.ready axis) x) where
  pairwise := (h.pairwise_along hx axis).filter _
  mem_iff y := by rw [Selection.candidates, List.mem_filter, h.mem_along_iff hx]

/-! ## Numbers that select positions -/

/-- Either way to round leaves a positive integer as it is. -/
theorem Rounding.selects_iff (rounding : Rounding) {x : Number} {k : Nat} (hx : Number.Whole x k)
    (hpos : 0 < k) (hk : k < Nat.pow 2 52) (position : Nat) :
    rounding.selects position x = true ↔ position = k := by
  have heq : ∀ y : Number, y.Whole k → (y.eq (.ofNat position) = true ↔ position = k) := by
    intro y hy
    rw [hy.eq_ofNat_iff hk, Int.natCast_inj]
    exact eq_comm
  cases rounding with
  | truncate =>
      rw [selects.eq_1, hx.isFinite, Bool.true_and]
      exact heq _ hx.trunc
  | halfUp =>
      rw [selects.eq_2, hx.isFinite, Bool.true_and]
      exact heq _ (hx.round (Int.natCast_pos.mpr hpos) (Int.ofNat_lt.mpr hk))

namespace Selection

variable {rounding : Rounding} {condition : Condition} {ids : List NodeId} {size place : Nat}

/-- Among so many nodes the condition keeps the one at a place, counted from one, and no other. -/
def Picks (rounding : Rounding) (condition : Condition) (size place : Nat) : Prop :=
  ∀ id position, ∃ value, condition ⟨id, position, size⟩ = .ok value ∧
    (keeps rounding position value = true ↔ position = place)

theorem Picks.keepFrom_eq_nil (h : Picks rounding condition size place) {position : Nat}
    (hlt : place < position) : keepFrom rounding condition size position ids = .ok [] := by
  induction ids generalizing position with
  | nil => rfl
  | cons id ids ih =>
      obtain ⟨value, hvalue, hkeeps⟩ := h id position
      rw [keepFrom, hvalue, ok_bind, ih (Nat.lt_succ_of_lt hlt), ok_bind,
        if_neg (mt hkeeps.mp (Nat.ne_of_gt hlt))]

theorem Picks.keepFrom_eq (h : Picks rounding condition size place) {position : Nat}
    (hle : position ≤ place) :
    keepFrom rounding condition size position ids = .ok (ids[place - position]?).toList := by
  induction ids generalizing position with
  | nil => rfl
  | cons id ids ih =>
      obtain ⟨value, hvalue, hkeeps⟩ := h id position
      rw [keepFrom, hvalue, ok_bind]
      rcases Nat.eq_or_lt_of_le hle with rfl | hlt
      · rw [h.keepFrom_eq_nil (Nat.lt_succ_self _), ok_bind, if_pos (hkeeps.mpr rfl), Nat.sub_self]
        rfl
      · obtain ⟨i, hi⟩ : ∃ i, place - position = i + 1 := ⟨place - position - 1, by omega⟩
        have hnext : place - (position + 1) = i := by omega
        rw [ih hlt, ok_bind, if_neg (mt hkeeps.mp (Nat.ne_of_lt hlt)), hnext, hi,
          List.getElem?_cons_succ]

/-- One predicate that asks for a place gives the node there, if there is one. -/
theorem keepAll_of_picks
    (h : ids ≠ [] → 0 < place ∧ Picks rounding condition ids.length place) :
    keepAll rounding [condition] ids = .ok (ids[place - 1]?).toList := by
  rw [keepAll]
  split
  · rename_i hempty
    rw [List.isEmpty_iff.mp hempty]
    rfl
  · rename_i hne
    obtain ⟨hpos, hpicks⟩ := h (mt List.isEmpty_iff.mpr hne)
    rw [keep, hpicks.keepFrom_eq hpos]
    rfl

theorem documentOrder_toList (found : Option NodeId) :
    documentOrder found.toList = found.toList := by
  refine (lists_documentOrder _).ascending.ext ?_ (lists_documentOrder _).mem_iff
  cases found <;> simp

end Selection

/-! ## Predicates that ask for one place -/

section
variable {v : View} {options : QueryOptions} {k size : Nat}

/-- The predicate `position() = k`. -/
def Expr.positionIs (k : Nat) : Expr :=
  .binary .eq (.call Function.position.title []) (.number (.ofNat k))

/-- The predicate `last()`. -/
def Expr.lastPlace : Expr := .call Function.last.title []

theorem lt_of_le_pow (hk : k ≤ Nat.pow 2 32) : k < Nat.pow 2 52 :=
  Nat.lt_of_le_of_lt hk (by decide)

theorem whole_of_le_pow (hk : k ≤ Nat.pow 2 32) : Number.Whole (.ofNat k) k :=
  Number.whole_ofNat (Nat.le_trans hk (by decide))

theorem picks_number (hpos : 0 < k) (hk : k ≤ Nat.pow 2 32) :
    Selection.Picks options.rounding ((number (.ofNat k)).eval v options) size k := fun _ position =>
  ⟨.number (.ofNat k), by rw [eval],
    options.rounding.selects_iff (whole_of_le_pow hk) hpos (lt_of_le_pow hk) position⟩

theorem eval_position (focus : Focus) :
    (call Function.position.title []).eval v options focus = .ok (.ofNat focus.position) :=
  (eval_call .position rfl).trans rfl

theorem eval_last (focus : Focus) : lastPlace.eval v options focus = .ok (.ofNat focus.size) :=
  (eval_call .last rfl).trans rfl

theorem picks_positionIs (hk : k ≤ Nat.pow 2 32) :
    Selection.Picks options.rounding ((positionIs k).eval v options) size k := by
  intro id position
  have hnumber : (number (.ofNat k)).eval v options ⟨id, position, size⟩ =
      .ok (.number (.ofNat k)) := by rw [eval]
  refine ⟨_, eval_binary .eq (eval_position _) hnumber, ?_⟩
  change (Number.ofNat position).eq (.ofNat k) = true ↔ position = k
  rw [Number.eq_symm, (whole_of_le_pow hk).eq_ofNat_iff (lt_of_le_pow hk), Int.natCast_inj, eq_comm]

theorem picks_last (hpos : 0 < size) (hsize : size ≤ Nat.pow 2 32) :
    Selection.Picks options.rounding (lastPlace.eval v options) size size := fun _ position =>
  ⟨.ofNat size, eval_last _,
    options.rounding.selects_iff (whole_of_le_pow hsize) hpos (lt_of_le_pow hsize) position⟩

/-- A path of one step whose predicate asks for one place. -/
theorem eval_path_of_picks {axis : Axis} {test : NodeTest} {predicate : Expr} {focus : Focus}
    {place : Nat}
    (h : let nodes := Selection.candidates v options axis (test.ready axis) focus.node
      nodes ≠ [] → 0 < place ∧
        Selection.Picks options.rounding (predicate.eval v options) nodes.length place) :
    (relative [step axis test [predicate]]).eval v options focus = .ok (.nodes
      (Selection.candidates v options axis (test.ready axis) focus.node)[place - 1]?.toList) := by
  have hkept := Selection.keepAll_of_picks h
  rw [eval, evalPath, eval, conditions, conditions, Selection.step, Selection.stepFromEach, hkept]
  simp only [ok_bind, Selection.stepFromEach, List.append_nil, Selection.documentOrder_toList,
    Value.toNodes, evalSteps]

/-- What an expression gives, evaluated and as a program: one node, if there is one. -/
def Expr.Finds (v : View) (options : QueryOptions) (focus : Focus) (e : Expr)
    (found : Option NodeId) : Prop :=
  e.eval v options focus = .ok (.nodes found.toList) ∧
    e.compile.run v options focus = .ok (.nodes found.toList)

theorem finds_of_eval {axis : Axis} {test : NodeTest} {predicate : Expr} {focus : Focus}
    {found : Option NodeId} (hpredicate : predicate.WellFormed)
    (h : (relative [step axis test [predicate]]).eval v options focus =
      .ok (.nodes found.toList)) :
    (relative [step axis test [predicate]]).Finds v options focus found := by
  have hpath : (relative [step axis test [predicate]]).WellFormed := wellFormed_steps <|
    List.forall_mem_singleton.mpr
      ⟨rfl, wellFormed_step.mpr (List.forall_mem_singleton.mpr hpredicate)⟩
  exact ⟨h, ((agrees_of_wellFormed hpath).run focus).trans h⟩

end

/-- From any node of a document, along any axis and under either way to round, a number as
predicate selects the node at that place of those on the axis that pass the test, if there is one;
so does a comparison of the position with the number, and `last()` selects the last one. Places
count in document order along forward axes and against it along reverse axes. -/
theorem finds_place (events : List Event) (options : QueryOptions) (axis : Axis) (test : NodeTest)
    (focus : Focus) :
    let d := Document.ofEvents events
    let path := fun predicate => Expr.relative [.step axis test [predicate]]
    focus.node < d.size →
      ∃ nodes, d.Counted options.aliases axis test focus.node nodes ∧
        (∀ k : Nat, 1 ≤ k → k ≤ Nat.pow 2 32 →
          (path (.number (.ofNat k))).Finds d.view options focus nodes[k - 1]? ∧
          (path (positionIs k)).Finds d.view options focus nodes[k - 1]?) ∧
        (d.size ≤ Nat.pow 2 32 →
          (path lastPlace).Finds d.view options focus nodes.getLast?) := by
  intro d path hx
  have hd : d.WellBuilt := Document.wellBuilt_ofEvents events
  have hcounted := hd.counted_candidates hx options axis test
  refine ⟨_, hcounted, fun k hpos hk => ⟨?_, ?_⟩, fun hsize => ?_⟩
  · exact finds_of_eval wellFormed_number
      (eval_path_of_picks fun _ => ⟨hpos, picks_number hpos hk⟩)
  · exact finds_of_eval (by simp [positionIs])
      (eval_path_of_picks fun _ => ⟨hpos, picks_positionIs hk⟩)
  · refine finds_of_eval (by simp [lastPlace]) ?_
    rw [List.getLast?_eq_getElem?]
    refine eval_path_of_picks fun hne => ?_
    have hlength := List.length_pos_iff.mpr hne
    have hle : (Selection.candidates d.view options axis (test.ready axis) focus.node).length ≤
        d.size := Nat.le_trans (List.length_filter_le ..) (hd.length_along_le hx axis)
    exact ⟨hlength, picks_last hlength (Nat.le_trans hle hsize)⟩

/-- The second one and the last one of the siblings of a name in front of an element. -/
theorem finds_place_backwards :
    let d := Document.ofEvents
      [.start "r" [], .empty "a" [], .empty "b" [], .empty "a" [], .empty "a" [], .close]
    let path := fun predicate => Expr.relative [.step .precedingSibling (.name "a") [predicate]]
    let options : QueryOptions := { rounding := .halfUp }
    let focus : Focus := { node := 5 }
    focus.node < d.size ∧ d.size ≤ Nat.pow 2 32 ∧ 1 ≤ 2 ∧ 2 ≤ Nat.pow 2 32 ∧
      ∃ nodes, d.Counted [] .precedingSibling (.name "a") focus.node nodes ∧
        nodes = [4, 2] ∧ (path (.number (.ofNat 2))).Finds d.view options focus nodes[1]? ∧
        (path (positionIs 2)).Finds d.view options focus nodes[1]? ∧
        (path lastPlace).Finds d.view options focus nodes.getLast? := by
  intro d path options focus
  have hx : focus.node < d.size := by decide
  have hsize : d.size ≤ Nat.pow 2 32 := by decide
  obtain ⟨nodes, hcounted, hplaces, hlast⟩ :=
    finds_place [.start "r" [], .empty "a" [], .empty "b" [], .empty "a" [], .empty "a" [], .close]
      options .precedingSibling (.name "a") focus hx
  have hcandidates := (Document.wellBuilt_ofEvents [.start "r" [], .empty "a" [], .empty "b" [],
    .empty "a" [], .empty "a" [], .close]).counted_candidates hx options .precedingSibling
    (.name "a")
  have hnodes : nodes = [4, 2] := (hcounted.unique hcandidates).trans (by decide +kernel)
  obtain ⟨hnumber, hposition⟩ := hplaces 2 (by decide) (by decide)
  exact ⟨hx, hsize, by decide, by decide, nodes, hcounted, hnodes, hnumber, hposition,
    hlast hsize⟩

end TreeQuery
