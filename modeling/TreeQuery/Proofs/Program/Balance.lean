import TreeQuery.Proofs.Program.Agreement

/-!
Balance of the stack. An operation takes its operands from the top of the stack, puts one value in
their place and neither reads nor moves what is below. The operations of an expression always find
their operands among the values that they have put there themselves, whatever the form of the
expression; so they leave one value on top of the stack they are started on.
-/
namespace TreeQuery

variable {v : View} {options : QueryOptions}

/-! ## One operation -/

namespace Op

/-- How many values an operation takes from the stack. -/
def operands : Op → Nat
  | root | context | number _ | string _ | reference _ | unsupported _ => 0
  | steps _ | filter _ | negate | and _ | or _ => 1
  | union | binary _ => 2
  | call _ n => n

/-- An operation that finds its operands on the stack takes them and no others: what it does depends
on them alone, and if it does not fail, its value takes their place. -/
theorem run_operands (op : Op) (focus : Focus) {taken : Stack} (h : taken.length = op.operands) :
    ∃ outcome : Except QueryError Value, ∀ below : Stack,
      op.run v options focus (taken ++ below) = outcome >>= fun value => .ok (value :: below) := by
  cases op with
  | root | context | number | string =>
      obtain rfl := List.length_eq_zero_iff.mp h
      simp only [List.nil_append, run]
      exact ⟨.ok _, fun _ => rfl⟩
  | reference name =>
      obtain rfl := List.length_eq_zero_iff.mp h
      simp only [List.nil_append, run]
      exact ⟨options.value name, fun _ => rfl⟩
  | unsupported feature =>
      obtain rfl := List.length_eq_zero_iff.mp h
      simp only [run]
      exact ⟨.error (.unsupported feature), fun _ => rfl⟩
  | steps steps =>
      obtain ⟨value, rfl⟩ := List.length_eq_one_iff.mp h
      refine ⟨value.toNodes >>= fun ids => ReadyStep.runAll v options steps ids >>= fun ids =>
        .ok (.nodes ids), fun below => ?_⟩
      simp only [List.singleton_append, run, Stack.pop, bind_assoc, ok_bind]
  | filter predicates =>
      obtain ⟨value, rfl⟩ := List.length_eq_one_iff.mp h
      refine ⟨value.toNodes >>= fun ids => Selection.keepAll options.rounding
        (Program.conditions v options predicates) ids >>= fun ids => .ok (.nodes ids),
        fun below => ?_⟩
      simp only [List.singleton_append, run, Stack.pop, bind_assoc, ok_bind]
  | negate =>
      obtain ⟨value, rfl⟩ := List.length_eq_one_iff.mp h
      exact ⟨.ok (value.negated v), fun below => by
        simp only [List.singleton_append, run, Stack.pop, ok_bind]⟩
  | and right =>
      obtain ⟨value, rfl⟩ := List.length_eq_one_iff.mp h
      refine ⟨if value.toBoolean then right.run v options focus >>= fun value =>
        .ok (.boolean value.toBoolean) else .ok (.boolean false), fun below => ?_⟩
      cases htrue : value.toBoolean <;>
        simp [run, Stack.pop, htrue]
  | or right =>
      obtain ⟨value, rfl⟩ := List.length_eq_one_iff.mp h
      refine ⟨if value.toBoolean then .ok (.boolean true) else right.run v options focus >>=
        fun value => .ok (.boolean value.toBoolean), fun below => ?_⟩
      cases htrue : value.toBoolean <;>
        simp [run, Stack.pop, htrue]
  | union =>
      obtain ⟨right, left, rfl⟩ := List.length_eq_two.mp h
      exact ⟨Selection.union left right, fun below => by
        simp only [List.cons_append, List.nil_append, run, Stack.pop]⟩
  | binary op =>
      obtain ⟨right, left, rfl⟩ := List.length_eq_two.mp h
      exact ⟨.ok (op.apply v left right), fun below => by
        simp only [List.cons_append, List.nil_append, run, Stack.pop, ok_bind]⟩
  | call function n =>
      refine ⟨function.call v focus taken.reverse, fun below => ?_⟩
      simp only [run, Stack.popArgs, ← show taken.length = n from h, List.take_left, List.drop_left]

end Op

/-! ## Runs of operations -/

/-- With so many values of their own on top of the stack, operations take no others, and leave so
many if they do not fail. Behind an operation that fails at once nothing is asked. -/
inductive Climbs : Nat → List Op → Nat → Prop where
  | nil {n : Nat} : Climbs n [] n
  | op {op : Op} {ops : List Op} {m n : Nat} (h : op.operands ≤ m)
      (rest : Climbs (m - op.operands + 1) ops n) : Climbs m (op :: ops) n
  | fail {feature : Feature} {ops : List Op} {m n : Nat} : Climbs m (.unsupported feature :: ops) n

namespace Climbs

variable {ops more before after : List Op} {op : Op} {m n k : Nat}

theorem single (h : op.operands ≤ m) : Climbs m [op] (m - op.operands + 1) := .op h .nil

theorem append (h : Climbs m ops k) (hmore : Climbs k more n) : Climbs m (ops ++ more) n := by
  induction h with
  | nil => exact hmore
  | op hop _ ih => exact .op hop (ih hmore)
  | fail => exact .fail

/-- In front of each operation there are its operands. -/
theorem cut (h : Climbs m (before ++ op :: after) n) : ∃ k, Climbs m before k ∧ op.operands ≤ k := by
  induction before generalizing m with
  | nil =>
      cases h with
      | op hop _ => exact ⟨m, .nil, hop⟩
      | fail => exact ⟨m, .nil, Nat.zero_le m⟩
  | cons first before ih =>
      cases h with
      | op hop rest =>
          obtain ⟨k, hbefore, hk⟩ := ih rest
          exact ⟨k, .op hop hbefore, hk⟩
      | fail => exact ⟨op.operands, .fail, Nat.le_refl _⟩

/-- What operations do depends on the values of their own alone, and what is below stays. -/
theorem runOps (v : View) (options : QueryOptions) (focus : Focus) (h : Climbs m ops n)
    {own : Stack} (hown : own.length = m) :
    ∃ outcome : Except QueryError Stack, (∀ left, outcome = .ok left → left.length = n) ∧
      ∀ below : Stack, Program.runOps v options ops focus (own ++ below) =
        outcome >>= fun left => .ok (left ++ below) := by
  induction h generalizing own with
  | nil =>
      refine ⟨.ok own, fun left hleft => ?_, fun below => Program.runOps_nil focus (own ++ below)⟩
      cases hleft
      exact hown
  | @op op ops m n hop rest ih =>
      -- `own` is the operands and what they stand on
      have hsplit : own = own.take op.operands ++ own.drop op.operands :=
        (List.take_append_drop op.operands own).symm
      have htaken : (own.take op.operands).length = op.operands := by
        rw [List.length_take, hown, Nat.min_eq_left hop]
      obtain ⟨outcome, hop⟩ := op.run_operands focus htaken
      cases outcome with
      | error err =>
          refine ⟨.error err, nofun, fun below => ?_⟩
          rw [hsplit, List.append_assoc, Program.runOps_cons, hop, error_bind, error_bind,
            error_bind]
      | ok value =>
          have hnext : (value :: own.drop op.operands).length = m - op.operands + 1 := by
            rw [List.length_cons, List.length_drop, hown]
          obtain ⟨outcome, hleft, hrest⟩ := ih hnext
          refine ⟨outcome, hleft, fun below => ?_⟩
          rw [hsplit, List.append_assoc, Program.runOps_cons, hop, ok_bind, ok_bind]
          exact hrest below
  | @fail feature ops m n =>
      refine ⟨.error (.unsupported feature), nofun, fun below => ?_⟩
      rw [Program.runOps_cons, Op.run]
      rfl

end Climbs

/-! ## Programs inside operations -/

/-- The predicates of a step. -/
def ReadyStep.predicates : ReadyStep → List Program
  | mk _ _ predicates => predicates

/-- The programs that an operation may run: its predicates, or its right operand. -/
def Op.programs : Op → List Program
  | .steps ready => ready.flatMap ReadyStep.predicates
  | .filter predicates => predicates
  | .and right | .or right => [right]
  | _ => []

/-- A program stands in some operations, at any depth. -/
inductive Program.Within (p : Program) : List Op → Prop where
  | here {op : Op} {ops : List Op} (hop : op ∈ ops) (h : p ∈ op.programs) : Within p ops
  | deeper {op : Op} {ops : List Op} {outer : Program} (hop : op ∈ ops)
      (houter : outer ∈ op.programs) (h : Within p outer.ops) : Within p ops

namespace Expr

theorem compilePrograms_eq_map (es : List Expr) : compilePrograms es = es.map compile := by
  induction es with
  | nil => rfl
  | cons e es ih => rw [compilePrograms, ih, List.map_cons, compile]

/-- The program comes from an expression. -/
def Made (p : Program) : Prop := ∃ part : Expr, p = part.compile

theorem made_of_mem_compilePrograms {es : List Expr} {p : Program} (h : p ∈ compilePrograms es) :
    Made p := by
  rw [compilePrograms_eq_map, List.mem_map] at h
  obtain ⟨part, _, heq⟩ := h
  exact ⟨part, heq.symm⟩

/-! ## Operations of expressions -/

/-- On whatever stack, operations put so many values on top of it, and the programs inside them come
from expressions. -/
structure Lifts (ops : List Op) (n : Nat) : Prop where
  climbs : ∀ m, Climbs m ops (m + n)
  made : ∀ op ∈ ops, ∀ p ∈ op.programs, Made p

namespace Lifts

variable {ops more : List Op} {op : Op} {n k : Nat}

theorem nil : Lifts [] 0 := ⟨fun _ => .nil, List.forall_mem_nil _⟩

theorem append (h : Lifts ops n) (hmore : Lifts more k) : Lifts (ops ++ more) (n + k) where
  climbs m := by
    rw [← Nat.add_assoc]
    exact (h.climbs m).append (hmore.climbs (m + n))
  made := List.forall_mem_append.mpr ⟨h.made, hmore.made⟩

/-- An operation behind others takes all the values that they put on the stack. -/
theorem snoc (h : Lifts ops op.operands) (hmade : ∀ p ∈ op.programs, Made p) :
    Lifts (ops ++ [op]) 1 where
  climbs m := by
    have hop := Climbs.single (Nat.le_add_left op.operands m)
    rw [Nat.add_sub_cancel] at hop
    exact (h.climbs m).append hop
  made := List.forall_mem_append.mpr ⟨h.made, List.forall_mem_singleton.mpr hmade⟩

theorem snoc_plain (h : Lifts ops op.operands) (hplain : op.programs = []) :
    Lifts (ops ++ [op]) 1 := by
  refine h.snoc ?_
  rw [hplain]
  exact List.forall_mem_nil Made

theorem single (h : op.operands = 0) (hplain : op.programs = []) : Lifts [op] 1 :=
  snoc_plain (h ▸ nil) hplain

/-- Steps go on from the node-set that is on top, and a part that is no step fails there. -/
theorem steps (h : Lifts ops 1) (parts : List Expr) {ready : List ReadyStep}
    (hready : ∀ step ∈ ready, ∀ p ∈ step.predicates, Made p) :
    Lifts (ops ++ compileSteps parts ready) 1 := by
  induction parts generalizing ready with
  | nil =>
      cases ready with
      | nil =>
          rw [compileSteps, List.append_nil]
          exact h
      | cons first ready =>
          have hop : compileSteps [] (first :: ready) = [.steps (first :: ready).reverse] := by
            simp only [compileSteps]
          rw [hop]
          refine h.snoc fun p hp => ?_
          obtain ⟨step, hstep, hp⟩ := List.mem_flatMap.mp hp
          exact hready step (List.mem_reverse.mp hstep) p hp
  | cons part parts ih =>
      cases part with
      | step axis test predicates =>
          rw [compileSteps]
          exact ih (List.forall_mem_cons.mpr ⟨fun p => made_of_mem_compilePrograms, hready⟩)
      | _ =>
          exact ⟨fun m => (h.climbs m).append .fail,
            List.forall_mem_append.mpr ⟨h.made,
              List.forall_mem_singleton.mpr (List.forall_mem_nil Made)⟩⟩

end Lifts

theorem lifts_compileArgs {args : List Expr} (h : ∀ arg ∈ args, Lifts arg.compileOps 1) :
    Lifts (compileArgs args) args.length := by
  induction args with
  | nil => exact .nil
  | cons arg args ih =>
      rw [compileArgs, List.length_cons, Nat.add_comm]
      exact (h arg List.mem_cons_self).append
        (ih fun arg harg => h arg (List.mem_cons_of_mem _ harg))

theorem lifts_relative {parts : List Expr} (h : ∀ part ∈ parts, Lifts part.compileOps 1) :
    Lifts (relative parts).compileOps 1 := by
  have hfocus : Lifts [.context] 1 := .single rfl rfl
  rw [compileOps]
  split
  · exact hfocus.steps parts (List.forall_mem_nil _)
  · cases parts with
    | nil => exact absurd rfl ‹_›
    | cons first rest =>
        rw [compileValuePath]
        exact (h first List.mem_cons_self).steps rest (List.forall_mem_nil _)

theorem lifts_binary {op : BinaryOp} {left right : Expr} (hleft : Lifts left.compileOps 1)
    (hright : Lifts right.compileOps 1) : Lifts (binary op left right).compileOps 1 := by
  cases op with
  | and | or =>
      rw [compileOps]
      exact hleft.snoc (List.forall_mem_singleton.mpr ⟨right, rfl⟩)
  | _ =>
      simp only [compileOps]
      exact (hleft.append hright).snoc_plain rfl

theorem lifts_call {name : String} {args : List Expr} (h : ∀ arg ∈ args, Lifts arg.compileOps 1) :
    Lifts (call name args).compileOps 1 := by
  rw [compileOps]
  split
  · exact (lifts_compileArgs h).snoc_plain rfl
  · exact .single rfl rfl

theorem lifts_compileOps (e : Expr) : Lifts e.compileOps 1 := by
  induction e using induction_on_children with
  | h e ih =>
    cases e with
    | absolute parts =>
        have hroot : Lifts [.root] 1 := .single rfl rfl
        rw [compileOps]
        exact hroot.steps parts (List.forall_mem_nil _)
    | relative parts => exact lifts_relative ih
    | step axis test predicates =>
        have hfocus : Lifts [.context] 1 := .single rfl rfl
        have hsteps : Lifts ([.context] ++ compileSteps [step axis test predicates] []) 1 :=
          hfocus.steps _ (List.forall_mem_nil _)
        rw [compileOps]
        exact hsteps
    | filter primary predicates =>
        rw [compileOps]
        exact (ih primary (by simp [children])).snoc fun p => made_of_mem_compilePrograms
    | binary op left right =>
        exact lifts_binary (ih left (by simp [children])) (ih right (by simp [children]))
    | union left right =>
        have hleft := ih left (by simp [children])
        have hright := ih right (by simp [children])
        rw [compileOps]
        exact (hleft.append hright).snoc_plain rfl
    | negate operand =>
        rw [compileOps]
        exact (ih operand (by simp [children])).snoc_plain rfl
    | string | number | reference =>
        rw [compileOps]
        exact .single rfl rfl
    | call name args => exact lifts_call ih

/-- The programs inside the operations of an expression come from expressions, at every depth. -/
theorem made_of_within {e : Expr} {p : Program} (h : p.Within e.compileOps) :
    Made p := by
  generalize hops : e.compileOps = ops at h
  induction h generalizing e with
  | here hop h =>
      subst hops
      exact e.lifts_compileOps.made _ hop _ h
  | deeper hop houter _ ih =>
      subst hops
      obtain ⟨part, rfl⟩ := e.lifts_compileOps.made _ hop _ houter
      exact ih rfl

end Expr

/-! ## Balance -/

/-- Operations keep to the values that they put on the stack themselves. On any stack they fail, or
put the value of their program on top of it. Each of them, when its turn comes, finds its operands
above what was on the stack at the start, and what it does is the same whatever is below. -/
structure Balanced (ops : List Op) : Prop where
  runOps_eq : ∀ (v : View) (options : QueryOptions) (focus : Focus) (stack : Stack),
    Program.runOps v options ops focus stack =
      (Program.mk ops).run v options focus >>= fun value => .ok (value :: stack)
  operands_above : ∀ (v : View) (options : QueryOptions) (focus : Focus) (stack reached : Stack)
    (before after : List Op) (op : Op), ops = before ++ op :: after →
    Program.runOps v options before focus stack = .ok reached →
    ∃ taken own : Stack, reached = taken ++ own ++ stack ∧ taken.length = op.operands ∧
      ∃ outcome : Except QueryError Value, ∀ below : Stack,
        op.run v options focus (taken ++ below) = outcome >>= fun value => .ok (value :: below)

theorem Climbs.balanced {ops : List Op} (h : Climbs 0 ops 1) : Balanced ops where
  runOps_eq v options focus stack := by
    obtain ⟨outcome, hlength, hrun⟩ := h.runOps v options focus List.length_nil
    simp only [List.nil_append] at hrun
    rw [Program.run, hrun stack, hrun []]
    cases outcome with
    | error err => rfl
    | ok left =>
        obtain ⟨value, rfl⟩ := List.length_eq_one_iff.mp (hlength left rfl)
        rfl
  operands_above v options focus stack reached before after op hops hreached := by
    subst hops
    obtain ⟨k, hbefore, hk⟩ := h.cut
    obtain ⟨outcome, hlength, hrun⟩ := hbefore.runOps v options focus List.length_nil
    rw [← List.nil_append stack, hrun stack, bind_eq_ok_iff] at hreached
    obtain ⟨left, hleft, heq⟩ := hreached
    obtain rfl := Except.ok.inj heq
    refine ⟨left.take op.operands, left.drop op.operands, ?_, ?_, op.run_operands focus ?_⟩
    · rw [List.take_append_drop]
    all_goals rw [List.length_take, hlength left hleft, Nat.min_eq_left hk]

/-- Whatever the form of an expression, its operations are balanced, and so are those of all
programs for predicates and right operands inside them, at every depth. -/
theorem balanced_compileOps (e : Expr) :
    Balanced e.compileOps ∧ ∀ p : Program, p.Within e.compileOps → Balanced p.ops := by
  refine ⟨(e.lifts_compileOps.climbs 0).balanced, fun p hp => ?_⟩
  obtain ⟨part, rfl⟩ := Expr.made_of_within hp
  exact (part.lifts_compileOps.climbs 0).balanced

/-- `$x[$y and "b"/$z]`, with a path that no text spells. -/
theorem balanced_compileOps_of_edited :
    let path : Expr := .relative [.string "b", .reference "z"]
    let condition : Expr := .binary .and (.reference "y") path
    let e : Expr := .filter (.reference "x") [condition]
    path.compile.Within e.compileOps ∧ Balanced path.compile.ops := by
  intro path condition e
  have hcondition : condition.compile.ops = [.reference "y", .and path.compile] := by
    simp [condition, Expr.compile, Program.ops, Expr.compileOps]
  have hops : e.compileOps = [.reference "x", .filter [condition.compile]] := by
    simp [e, Expr.compile, Expr.compileOps, Expr.compilePrograms]
  have hwithin : path.compile.Within e.compileOps := by
    rw [hops]
    refine .deeper (List.mem_cons_of_mem _ List.mem_cons_self) List.mem_cons_self ?_
    rw [hcondition]
    exact .here (List.mem_cons_of_mem _ List.mem_cons_self) List.mem_cons_self
  exact ⟨hwithin, (balanced_compileOps e).2 path.compile hwithin⟩

end TreeQuery
