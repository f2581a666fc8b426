import TreeQuery.Proofs.Eval.Settings
import TreeQuery.Proofs.Eval.Steady

/-!
Steps and the nodes they start from. A step is taken from each of its nodes alone, and what all of
them lead to is put in document order. So its outcome depends on which nodes it starts from, not on
their order or on how often a node is among them, whatever its predicates ask for.
-/
namespace TreeQuery

namespace Lists

variable {l l' : List NodeId} {q q' : NodeId → Prop}

theorem unique (h : Lists l q) (h' : Lists l' q) : l = l' :=
  h.ascending.ext h'.ascending fun y => (h.mem_iff y).trans (h'.mem_iff y).symm

theorem congr_iff (h : ∀ y, q y ↔ q' y) : Lists l q ↔ Lists l q' :=
  ⟨fun hl => hl.congr h, fun hl => hl.congr fun y => (h y).symm⟩

end Lists

/-! ## Steps from each node -/

namespace Selection

section
variable (v : View) (options : QueryOptions) (axis : Axis) (test : ReadyTest)
  (conditions : List Condition)

/-- What a step selects from one node, in the order of the axis. -/
def stepFrom (id : NodeId) : Except QueryError (List NodeId) :=
  keepAll options.rounding conditions (candidates v options axis test id)

/-- A node that a step selects from one of some nodes. -/
def Selects (ids : List NodeId) (y : NodeId) : Prop :=
  ∃ x ∈ ids, ∃ here, stepFrom v options axis test conditions x = .ok here ∧ y ∈ here

end

variable {v : View} {options : QueryOptions} {axis : Axis} {test : ReadyTest}
  {conditions : List Condition} {ids ids' kept : List NodeId}

theorem mem_of_stepFromEach (h : stepFromEach v options axis test conditions ids = .ok kept) :
    (∀ x ∈ ids, ∃ here, stepFrom v options axis test conditions x = .ok here) ∧
      ∀ y, y ∈ kept ↔ Selects v options axis test conditions ids y := by
  induction ids generalizing kept with
  | nil =>
      cases h
      simp [Selects]
  | cons x ids ih =>
      simp only [stepFromEach, bind_eq_ok_iff, Except.ok.injEq] at h
      obtain ⟨here, hhere, rest, hrest, rfl⟩ := h
      obtain ⟨hall, hmem⟩ := ih hrest
      have hx : stepFrom v options axis test conditions x = .ok here := hhere
      refine ⟨List.forall_mem_cons.mpr ⟨⟨here, hx⟩, hall⟩, fun y => ?_⟩
      rw [List.mem_append, hmem, Selects, Selects, List.exists_mem_cons_iff, hx]
      simp

theorem exists_stepFromEach
    (h : ∀ x ∈ ids, ∃ here, stepFrom v options axis test conditions x = .ok here) :
    ∃ kept, stepFromEach v options axis test conditions ids = .ok kept := by
  induction ids with
  | nil => exact ⟨[], rfl⟩
  | cons x ids ih =>
      obtain ⟨⟨here, hhere⟩, hids⟩ := List.forall_mem_cons.mp h
      obtain ⟨rest, hrest⟩ := ih hids
      rw [stepFrom] at hhere
      exact ⟨here ++ rest, by rw [stepFromEach, hhere, hrest]; rfl⟩

/-- A step gives nodes when it does from each node, and these are what it selects from them. -/
theorem step_eq_ok_iff : step v options axis test conditions ids = .ok kept ↔
    (∀ x ∈ ids, ∃ here, stepFrom v options axis test conditions x = .ok here) ∧
      Lists kept (Selects v options axis test conditions ids) := by
  simp only [step, bind_eq_ok_iff, Except.ok.injEq]
  constructor
  · rintro ⟨all, hall, rfl⟩
    obtain ⟨hids, hmem⟩ := mem_of_stepFromEach hall
    exact ⟨hids, (lists_documentOrder all).congr hmem⟩
  · rintro ⟨hids, hkept⟩
    obtain ⟨all, hall⟩ := exists_stepFromEach hids
    have hmem := (mem_of_stepFromEach hall).2
    exact ⟨all, hall, ((lists_documentOrder all).congr hmem).unique hkept⟩

/-- Steps that do alike from each node do alike from all of them. -/
theorem concur_step {axis' : Axis} {test' : ReadyTest} {conditions' : List Condition}
    (h : ∀ x ∈ ids, Concur (stepFrom v options axis test conditions x)
      (stepFrom v options axis' test' conditions' x)) :
    Concur (step v options axis test conditions ids)
      (step v options axis' test' conditions' ids) := by
  have hsame : ∀ x ∈ ids, ∀ here, stepFrom v options axis test conditions x = .ok here ↔
      stepFrom v options axis' test' conditions' x = .ok here := fun x hx => concur_iff.mp (h x hx)
  rw [concur_iff]
  intro kept
  rw [step_eq_ok_iff, step_eq_ok_iff]
  refine and_congr (forall₂_congr fun x hx => exists_congr (hsame x hx))
    (Lists.congr_iff fun y => ?_)
  exact exists_congr fun x => and_congr_right fun hx =>
    exists_congr fun here => and_congr_left' (hsame x hx here)

theorem concur_step_of_mem_iff (h : ∀ x, x ∈ ids ↔ x ∈ ids') :
    Concur (step v options axis test conditions ids)
      (step v options axis test conditions ids') := by
  rw [concur_iff]
  intro kept
  rw [step_eq_ok_iff, step_eq_ok_iff]
  simp only [h]
  exact and_congr_right fun _ => Lists.congr_iff fun y => by simp only [Selects, h]

/-- From two lists one behind the other, a step gives what it gives from the one or the other. -/
theorem step_append_eq_ok_iff : step v options axis test conditions (ids ++ ids') = .ok kept ↔
    ∃ left right, step v options axis test conditions ids = .ok left ∧
      step v options axis test conditions ids' = .ok right ∧
      Lists kept fun y => y ∈ left ∨ y ∈ right := by
  have hselects : ∀ y, Selects v options axis test conditions (ids ++ ids') y ↔
      Selects v options axis test conditions ids y ∨
        Selects v options axis test conditions ids' y := fun y => by
    simp only [Selects, List.mem_append, or_and_right, exists_or]
  rw [step_eq_ok_iff]
  constructor
  · rintro ⟨hall, hkept⟩
    obtain ⟨hids, hids'⟩ := List.forall_mem_append.mp hall
    obtain ⟨left, hleft⟩ := exists_stepFromEach hids
    obtain ⟨right, hright⟩ := exists_stepFromEach hids'
    refine ⟨documentOrder left, documentOrder right, by rw [step, hleft, ok_bind],
      by rw [step, hright, ok_bind], hkept.congr fun y => ?_⟩
    rw [hselects, (lists_documentOrder left).mem_iff, (lists_documentOrder right).mem_iff,
      (mem_of_stepFromEach hleft).2, (mem_of_stepFromEach hright).2]
  · rintro ⟨left, right, hleft, hright, hkept⟩
    obtain ⟨hids, hl⟩ := step_eq_ok_iff.mp hleft
    obtain ⟨hids', hr⟩ := step_eq_ok_iff.mp hright
    refine ⟨List.forall_mem_append.mpr ⟨hids, hids'⟩, hkept.congr fun y => ?_⟩
    rw [hselects, hl.mem_iff, hr.mem_iff]

end Selection

/-! ## Paths from the nodes of a variable -/

/-- The options with nodes as the value of one more variable. -/
def QueryOptions.binding (options : QueryOptions) (name : String) (ids : List NodeId) :
    QueryOptions :=
  { options with values := (name, .nodes ids) :: options.values }

namespace Expr

variable {v : View} {options : QueryOptions}

/-- A variable does not occur in an expression. -/
def Omits (name : String) (e : Expr) : Prop := e.Everywhere fun part => part ≠ .reference name

theorem value_binding_self (options : QueryOptions) (name : String) (ids : List NodeId) :
    (options.binding name ids).value name = .ok (.nodes ids) := by
  simp [QueryOptions.value, QueryOptions.binding]

theorem alike_binding (v : View) (options : QueryOptions) (name : String) (ids : List NodeId) :
    Alike (fun _ test test' => test' = test) (· ≠ name) v v options
      (options.binding name ids) where
  rounding := rfl
  value other hother := by
    have hlookup :
        (options.binding name ids).values.lookup other = options.values.lookup other := by
      simp [QueryOptions.binding, List.lookup_cons, beq_eq_false_iff_ne.mpr hother]
    rw [QueryOptions.value, hlookup, QueryOptions.value]
  candidates axis test test' h := by
    rw [h]
    rfl
  apply _ _ _ := rfl
  negated _ := rfl
  call _ _ _ := rfl

theorem Omits.paired {name : String} {e : Expr} (h : e.Omits name) :
    Paired (SameForm (fun _ test test' => test' = test) (· ≠ name)) e e := by
  refine Paired.of_everywhere (f := id) h (fun part hpart => ?_) fun part => (List.map_id _).symm
  refine .refl (fun _ _ _ _ => rfl) ?_
  rintro other rfl rfl
  exact hpart rfl

/-- Steps that do not ask for a variable do not depend on its value. -/
theorem evalSteps_binding {name : String} {parts : List Expr}
    (h : ∀ part ∈ parts, part.Omits name) (ids : List NodeId) :
    evalSteps v (options.binding name ids) parts = evalSteps v options parts := by
  have halike := alike_binding v options name ids
  refine evalSteps_congr halike (List.forall₂_same.mpr fun part hp => ?_)
  obtain ⟨hform, hchildren⟩ := (h part hp).paired
  exact ⟨hform, hchildren.imp fun _ _ hchild => eval_congr halike hchild⟩

theorem eval_binding_path {name : String} {parts : List Expr}
    (h : ∀ part ∈ parts, part.Omits name) (ids : List NodeId) (focus : Focus) :
    (relative (reference name :: parts)).eval v (options.binding name ids) focus =
      evalSteps v options parts ids >>= fun kept => .ok (.nodes kept) := by
  rw [eval, evalPath, eval, value_binding_self, evalSteps_binding h]
  rfl

end Expr

/-- A step depends on which nodes it starts from alone, and from two lists of nodes it gives what it
gives from the one or the other. So does a path from the nodes of a variable, where its steps do not
ask for the variable themselves. -/
theorem step_by_members (v : View) (options : QueryOptions) (axis : Axis) (test : NodeTest)
    (predicates : List Expr) :
    let step := Selection.step v options axis (test.ready axis)
      (Expr.conditions v options predicates)
    (∀ ids ids', (∀ x, x ∈ ids ↔ x ∈ ids') → Concur (step ids) (step ids')) ∧
      (∀ ids ids' kept, step (ids ++ ids') = .ok kept ↔
        ∃ left right, step ids = .ok left ∧ step ids' = .ok right ∧
          Lists kept fun y => y ∈ left ∨ y ∈ right) ∧
      ∀ name rest, (∀ part ∈ .step axis test predicates :: rest, part.Omits name) →
        ∀ ids ids', (∀ x, x ∈ ids ↔ x ∈ ids') → ∀ focus,
          let path := Expr.relative (.reference name :: .step axis test predicates :: rest)
          Concur (path.eval v (options.binding name ids) focus)
            (path.eval v (options.binding name ids') focus) := by
  intro step
  have hmembers : ∀ ids ids', (∀ x, x ∈ ids ↔ x ∈ ids') → Concur (step ids) (step ids') :=
    fun _ _ => Selection.concur_step_of_mem_iff
  refine ⟨hmembers, fun _ _ _ => Selection.step_append_eq_ok_iff, ?_⟩
  intro name rest homits ids ids' hids focus path
  rw [Expr.eval_binding_path homits, Expr.eval_binding_path homits, Expr.evalSteps_cons,
    Expr.evalSteps_cons]
  exact ((hmembers ids ids' hids).bind fun _ _ => .refl _).bind fun _ _ => .refl _

/-- Children with one before them, from a list with a node twice and from a variable. -/
theorem step_by_members_of_later :
    let v := (Document.ofEvents [.start "r" [], .empty "a" [], .empty "b" [], .close]).view
    let before := Expr.relative [.step .precedingSibling .node []]
    let path := Expr.relative [.reference "v", .step .child .node [before]]
    let step := Selection.step v {} .child (NodeTest.node.ready .child)
      (Expr.conditions v {} [before])
    (∀ x, x ∈ [1, 0, 1] ↔ x ∈ [0, 1]) ∧ step [0, 1] = .ok [3] ∧
      Concur (step [1, 0, 1]) (step [0, 1]) ∧
      (step ([1] ++ [0, 1]) = .ok [3] ↔ ∃ left right, step [1] = .ok left ∧
        step [0, 1] = .ok right ∧ Lists [3] fun y => y ∈ left ∨ y ∈ right) ∧
      (∀ part ∈ [Expr.step .child .node [before]], part.Omits "v") ∧
      Concur (path.eval v (QueryOptions.binding {} "v" [1, 0, 1]) { node := 0 })
        (path.eval v (QueryOptions.binding {} "v" [0, 1]) { node := 0 }) := by
  have hids : ∀ x, x ∈ [1, 0, 1] ↔ x ∈ [0, 1] := by simp [or_comm]
  have hstep : (Expr.step .precedingSibling .node []).Omits "v" :=
    .intro nofun (List.forall_mem_nil _)
  have hbefore : (Expr.relative [.step .precedingSibling .node []]).Omits "v" :=
    .intro nofun (List.forall_mem_singleton.mpr hstep)
  have homits : ∀ part ∈ [Expr.step .child .node [.relative [.step .precedingSibling .node []]]],
      part.Omits "v" :=
    List.forall_mem_singleton.mpr (.intro nofun (List.forall_mem_singleton.mpr hbefore))
  obtain ⟨hmembers, happend, hpath⟩ := step_by_members
    (Document.ofEvents [.start "r" [], .empty "a" [], .empty "b" [], .close]).view {} .child .node
    [.relative [.step .precedingSibling .node []]]
  exact ⟨hids, by decide +kernel, hmembers _ _ hids, happend [1] [0, 1] [3], homits,
    hpath "v" [] homits _ _ hids { node := 0 }⟩

/-- A path whose step asks for the first of the nodes that it starts from. -/
theorem step_by_members_fails :
    let v := (Document.ofEvents [.start "a" [], .empty "b" [], .close]).view
    let first := Expr.call "local-name" [.reference "v"]
    let path := Expr.relative
      [.reference "v", .step .self .node [.binary .eq first (.string "a")]]
    let outcome ids := path.eval v (QueryOptions.binding {} "v" ids) { node := 0 }
    (∀ x, x ∈ [1, 2] ↔ x ∈ [2, 1]) ∧ outcome [1, 2] = .ok (.nodes [1, 2]) ∧
      outcome [2, 1] = .ok (.nodes []) := by
  intro v first path outcome
  let options := QueryOptions.binding {} "v" [1, 2]
  let step := Selection.step v options .self .node
    (Expr.conditions v options [.binary .eq first (.string "a")])
  have hstep : step [1, 2] = .ok [1, 2] :=
    Selection.step_of_found [1, 2] (by decide +kernel) (by decide) (by decide) (by decide)
  have houtcome : outcome [1, 2] = step [1, 2] >>= fun ids => .ok (.nodes ids) := rfl
  rw [houtcome, hstep]
  exact ⟨by simp [or_comm], rfl, by decide +kernel⟩

end TreeQuery
