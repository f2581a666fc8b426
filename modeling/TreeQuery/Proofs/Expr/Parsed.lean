import TreeQuery.Expr.Parser
import TreeQuery.Proofs.Expr.Everywhere
import TreeQuery.Proofs.Outcome

/-!
What the parser reads is well-formed. Each level of the grammar keeps this property of what stands
between brackets.
-/
namespace TreeQuery.Expr

/-- Whatever a parser reads has a property. -/
def Yields {α : Type} (P : α → Prop) (parser : Parser α) : Prop :=
  ∀ ts a rest, parser ts = .ok (a, rest) → P a

abbrev AllWellFormed (es : List Expr) : Prop := ∀ e ∈ es, e.WellFormed

abbrev AllSteps (es : List Expr) : Prop := ∀ e ∈ es, e.isStep ∧ e.WellFormed

theorem allSteps_anyDepth {es : List Expr} (h : AllSteps es) : AllSteps (anyDepth :: es) :=
  List.forall_mem_cons.mpr ⟨⟨rfl, by simp [anyDepth]⟩, h⟩

/-! ## Chains of operands -/

/-- An operator joins well-formed operands to a well-formed expression. -/
def Joins (join? : TokenKind → Option (Expr → Expr → Expr)) : Prop :=
  ∀ kind join, join? kind = some join →
    ∀ left right, left.WellFormed → right.WellFormed → (join left right).WellFormed

theorem yields_chainFrom {operand : Parser Expr} {join? : TokenKind → Option (Expr → Expr → Expr)}
    (h : Yields WellFormed operand) (hjoin : Joins join?) (rounds : Nat) {left : Expr}
    (hleft : left.WellFormed) : Yields WellFormed (chainFrom operand join? rounds left) := by
  induction rounds generalizing left with
  | zero => intro ts e rest hrun; cases hrun; exact hleft
  | succ rounds ih =>
      intro ts e rest hrun
      rw [chainFrom] at hrun
      split at hrun
      · cases hrun; exact hleft
      · rename_i join hkind
        obtain ⟨kind, _, hkind⟩ := Option.bind_eq_some_iff.mp hkind
        simp only [bind_eq_ok_iff] at hrun
        obtain ⟨ts', _, ⟨right, ts''⟩, hright, hrun⟩ := hrun
        exact ih (hjoin kind join hkind left right hleft (h _ _ _ hright)) _ _ _ hrun

theorem yields_chain {operand : Parser Expr} {join? : TokenKind → Option (Expr → Expr → Expr)}
    (hjoin : Joins join?) (h : Yields WellFormed operand) :
    Yields WellFormed (chain join? operand) := by
  intro ts e rest hrun
  simp only [chain, bind_eq_ok_iff] at hrun
  obtain ⟨⟨left, ts'⟩, hleft, hrun⟩ := hrun
  exact yields_chainFrom h hjoin _ (h _ _ _ hleft) _ _ _ hrun

theorem joins_of_binary {join? : TokenKind → Option (Expr → Expr → Expr)}
    (h : ∀ kind join, join? kind = some join → ∃ op, join = binary op) : Joins join? := by
  intro kind join hkind left right hleft hright
  obtain ⟨op, rfl⟩ := h kind join hkind
  exact wellFormed_binary.mpr ⟨hleft, hright⟩

theorem joins_or : Joins orJoin? :=
  joins_of_binary fun kind join h => by cases kind <;> cases h; exact ⟨_, rfl⟩

theorem joins_and : Joins andJoin? :=
  joins_of_binary fun kind join h => by cases kind <;> cases h; exact ⟨_, rfl⟩

theorem joins_equality : Joins equalityJoin? :=
  joins_of_binary fun kind join h => by cases kind <;> cases h <;> exact ⟨_, rfl⟩

theorem joins_order : Joins orderJoin? :=
  joins_of_binary fun kind join h => by cases kind <;> cases h <;> exact ⟨_, rfl⟩

theorem joins_sum : Joins sumJoin? :=
  joins_of_binary fun kind join h => by cases kind <;> cases h <;> exact ⟨_, rfl⟩

theorem joins_product : Joins productJoin? :=
  joins_of_binary fun kind join h => by cases kind <;> cases h <;> exact ⟨_, rfl⟩

theorem joins_union : Joins unionJoin? := by
  intro kind join h left right hleft hright
  cases kind <;> cases h
  exact wellFormed_union.mpr ⟨hleft, hright⟩

theorem yields_negation {operand : Parser Expr} (h : Yields WellFormed operand) :
    Yields WellFormed (negation operand) := by
  suffices hfrom : ∀ rounds, Yields WellFormed (negationFrom operand rounds) from
    fun ts => hfrom ts.ahead.length ts
  intro rounds
  induction rounds with
  | zero => exact h
  | succ rounds ih =>
      intro ts e rest hrun
      rw [negationFrom] at hrun
      split at hrun
      · simp only [bind_eq_ok_iff] at hrun
        obtain ⟨ts', _, ⟨operand, ts''⟩, hoperand, hrun⟩ := hrun
        cases hrun
        exact wellFormed_negate.mpr (ih _ _ _ hoperand)
      · exact h _ _ _ hrun

/-! ## Predicates and arguments -/

section
variable {nested : Parser Expr} (h : Yields WellFormed nested)
include h

theorem yields_predicate : Yields WellFormed (predicate nested) := by
  intro ts e rest hrun
  simp only [predicate, bind_eq_ok_iff] at hrun
  obtain ⟨ts', _, ⟨e', ts''⟩, he, rest', _, hrun⟩ := hrun
  cases hrun
  exact h _ _ _ he

theorem yields_predicates : Yields AllWellFormed (predicates nested) := by
  suffices hfrom : ∀ rounds, Yields AllWellFormed (predicatesFrom nested rounds) from
    fun ts => hfrom ts.ahead.length ts
  intro rounds
  induction rounds with
  | zero => intro ts es rest hrun; cases hrun; exact List.forall_mem_nil _
  | succ rounds ih =>
      intro ts es rest hrun
      rw [predicatesFrom] at hrun
      split at hrun
      · simp only [bind_eq_ok_iff] at hrun
        obtain ⟨⟨e, ts'⟩, he, ⟨es', ts''⟩, hes, hrun⟩ := hrun
        cases hrun
        exact List.forall_mem_cons.mpr ⟨yields_predicate h _ _ _ he, ih _ _ _ hes⟩
      · cases hrun; exact List.forall_mem_nil _

theorem yields_argumentsFrom (rounds : Nat) :
    Yields AllWellFormed (argumentsFrom nested rounds) := by
  induction rounds with
  | zero => intro ts es rest hrun; cases hrun; exact List.forall_mem_nil _
  | succ rounds ih =>
      intro ts es rest hrun
      rw [argumentsFrom] at hrun
      split at hrun
      · simp only [bind_eq_ok_iff] at hrun
        obtain ⟨ts₁, _, ⟨e, ts₂⟩, he, ⟨es', ts₃⟩, hes, hrun⟩ := hrun
        cases hrun
        exact List.forall_mem_cons.mpr ⟨h _ _ _ he, ih _ _ _ hes⟩
      · cases hrun; exact List.forall_mem_nil _

theorem yields_arguments : Yields AllWellFormed (arguments nested) := by
  intro ts es rest hrun
  rw [arguments] at hrun
  split at hrun
  · cases hrun; exact List.forall_mem_nil _
  · simp only [bind_eq_ok_iff] at hrun
    obtain ⟨⟨e, ts'⟩, he, ⟨es', ts''⟩, hes, hrun⟩ := hrun
    cases hrun
    exact List.forall_mem_cons.mpr ⟨h _ _ _ he, yields_argumentsFrom h _ _ _ _ hes⟩

theorem yields_functionCall (function : String) :
    Yields WellFormed (functionCall nested function) := by
  intro ts e rest hrun
  simp only [functionCall, bind_eq_ok_iff] at hrun
  obtain ⟨ts₁, _, ts₂, _, ⟨args, ts₃⟩, hargs, ts₄, _, hrun⟩ := hrun
  cases hrun
  exact wellFormed_call.mpr (yields_arguments h _ _ _ hargs)

/-! ## Steps and paths -/

theorem yields_stepParser : Yields (fun e => e.isStep ∧ e.WellFormed) (stepParser nested) := by
  intro ts e rest hrun
  rw [stepParser.eq_def] at hrun
  split at hrun
  · simp only [bind_eq_ok_iff] at hrun
    obtain ⟨_, _, hrun⟩ := hrun
    cases hrun
    exact ⟨rfl, by simp⟩
  · simp only [bind_eq_ok_iff] at hrun
    obtain ⟨_, _, hrun⟩ := hrun
    cases hrun
    exact ⟨rfl, by simp⟩
  · simp only [bind_eq_ok_iff] at hrun
    obtain ⟨⟨axis, ts₁⟩, _, ⟨test, ts₂⟩, _, ⟨es, ts₃⟩, hes, hrun⟩ := hrun
    cases hrun
    exact ⟨rfl, wellFormed_step.mpr (yields_predicates h _ _ _ hes)⟩

theorem yields_stepsFrom (rounds : Nat) : Yields AllSteps (stepsFrom nested rounds) := by
  induction rounds with
  | zero => intro ts es rest hrun; cases hrun; exact List.forall_mem_nil _
  | succ rounds ih =>
      intro ts es rest hrun
      rw [stepsFrom] at hrun
      split at hrun
      · simp only [bind_eq_ok_iff] at hrun
        obtain ⟨ts₁, _, ⟨e, ts₂⟩, he, ⟨es', ts₃⟩, hes, hrun⟩ := hrun
        cases hrun
        exact List.forall_mem_cons.mpr ⟨yields_stepParser h _ _ _ he, ih _ _ _ hes⟩
      · simp only [bind_eq_ok_iff] at hrun
        obtain ⟨ts₁, _, ⟨e, ts₂⟩, he, ⟨es', ts₃⟩, hes, hrun⟩ := hrun
        cases hrun
        exact allSteps_anyDepth
          (List.forall_mem_cons.mpr ⟨yields_stepParser h _ _ _ he, ih _ _ _ hes⟩)
      · cases hrun; exact List.forall_mem_nil _

theorem yields_steps : Yields (fun es => AllSteps es ∧ es ≠ []) (steps nested) := by
  intro ts es rest hrun
  simp only [steps, bind_eq_ok_iff] at hrun
  obtain ⟨⟨e, ts₁⟩, he, ⟨es', ts₂⟩, hes, hrun⟩ := hrun
  cases hrun
  refine ⟨List.forall_mem_cons.mpr ⟨yields_stepParser h _ _ _ he, ?_⟩, by simp⟩
  exact yields_stepsFrom h _ _ _ _ hes

theorem yields_primary : Yields WellFormed (primary nested) := by
  intro ts e rest hrun
  rw [primary.eq_def] at hrun
  split at hrun
  case h_4 =>
    simp only [bind_eq_ok_iff] at hrun
    obtain ⟨ts₁, _, ⟨e', ts₂⟩, he, ts₃, _, hrun⟩ := hrun
    cases hrun
    exact h _ _ _ he
  case h_5 => exact yields_functionCall h _ _ _ _ hrun
  case h_6 => exact yields_functionCall h _ _ _ _ hrun
  case h_7 => simp [Tokens.unexpected, Tokens.fail] at hrun
  all_goals
    simp only [bind_eq_ok_iff] at hrun
    obtain ⟨_, _, hrun⟩ := hrun
    cases hrun
    simp

theorem yields_filterParser : Yields WellFormed (filterParser nested) := by
  intro ts e rest hrun
  simp only [filterParser, bind_eq_ok_iff] at hrun
  obtain ⟨⟨e', ts₁⟩, he, ⟨es, ts₂⟩, hes, hrun⟩ := hrun
  cases hrun
  split
  · exact yields_primary h _ _ _ he
  · exact wellFormed_filter.mpr ⟨yields_primary h _ _ _ he, yields_predicates h _ _ _ hes⟩

theorem yields_filterPath : Yields WellFormed (filterPath nested) := by
  intro ts e rest hrun
  simp only [filterPath, bind_eq_ok_iff] at hrun
  obtain ⟨⟨e', ts₁⟩, he, hrun⟩ := hrun
  have hfirst := yields_filterParser h _ _ _ he
  split at hrun
  · simp only [bind_eq_ok_iff] at hrun
    obtain ⟨ts₂, _, ⟨es, ts₃⟩, hes, hrun⟩ := hrun
    cases hrun
    obtain ⟨hes, hne⟩ := yields_steps h _ _ _ hes
    exact wellFormed_relative hfirst hes hne
  · simp only [bind_eq_ok_iff] at hrun
    obtain ⟨ts₂, _, ⟨es, ts₃⟩, hes, hrun⟩ := hrun
    cases hrun
    obtain ⟨hes, _⟩ := yields_steps h _ _ _ hes
    exact wellFormed_relative hfirst (allSteps_anyDepth hes) (by simp)
  · cases hrun; exact hfirst

theorem yields_absoluteTail : Yields WellFormed (absoluteTail nested) := by
  intro ts e rest hrun
  simp only [absoluteTail, bind_eq_ok_iff] at hrun
  obtain ⟨atStep, _, hrun⟩ := hrun
  split at hrun
  · simp only [bind_eq_ok_iff] at hrun
    obtain ⟨⟨es, ts₁⟩, hes, hrun⟩ := hrun
    cases hrun
    exact wellFormed_absolute.mpr (yields_steps h _ _ _ hes).1
  · cases hrun; exact wellFormed_absolute.mpr (List.forall_mem_nil _)

theorem yields_path : Yields WellFormed (path nested) := by
  intro ts e rest hrun
  rw [path.eq_def] at hrun
  split at hrun
  · simp only [bind_eq_ok_iff] at hrun
    obtain ⟨ts₁, _, hrun⟩ := hrun
    exact yields_absoluteTail h _ _ _ hrun
  · simp only [bind_eq_ok_iff] at hrun
    obtain ⟨ts₁, _, ⟨es, ts₂⟩, hes, hrun⟩ := hrun
    cases hrun
    obtain ⟨hes, _⟩ := yields_steps h _ _ _ hes
    exact wellFormed_absolute.mpr (allSteps_anyDepth hes)
  · simp only [bind_eq_ok_iff] at hrun
    obtain ⟨atStep, _, hrun⟩ := hrun
    split at hrun
    · simp only [bind_eq_ok_iff] at hrun
      obtain ⟨⟨es, ts₁⟩, hes, hrun⟩ := hrun
      cases hrun
      exact wellFormed_steps (yields_steps h _ _ _ hes).1
    · exact yields_filterPath h _ _ _ hrun

/-! ## Whole expressions -/

theorem yields_levels : Yields WellFormed (levels nested) :=
  yields_chain joins_or <| yields_chain joins_and <| yields_chain joins_equality <|
    yields_chain joins_order <| yields_chain joins_sum <| yields_chain joins_product <|
      yields_negation <| yields_chain joins_union <| yields_path h

end

theorem yields_parseNested (depth : Nat) : Yields WellFormed (parseNested depth) := by
  induction depth with
  | zero => intro ts e rest hrun; simp [parseNested, Tokens.unexpected, Tokens.fail] at hrun
  | succ depth ih => exact yields_levels ih

theorem wellFormed_of_parse {text : String} {e : Expr} (h : parse text = .ok e) :
    e.WellFormed := by
  simp only [parse, bind_eq_ok_iff] at h
  obtain ⟨ts, _, ⟨e', rest⟩, he, h⟩ := h
  split at h
  · cases h; exact yields_parseNested _ _ _ _ he
  · simp [Tokens.unexpected, Tokens.fail] at h

end TreeQuery.Expr
