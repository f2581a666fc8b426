import Mathlib.Data.List.Forall2
import TreeQuery.Expr.Parser
import TreeQuery.Proofs.Expr.Ranges
import TreeQuery.Proofs.Outcome

/-!
What is parsed does not depend on where the tokens stand. A parser that is given the same tokens at
other places reads the same, or fails with the same error but for its place; and whatever relates
the places of the tokens relates those of the errors. So an error stands where a token starts, or
where reading ends.
-/
namespace TreeQuery

open TreeQuery.Text (Place Range placeAt lineAt columnAt toNat_placeAt)

/-! ## Outcomes side by side -/

section
variable {α β : Type} {good : α → α → Prop} {good' : β → β → Prop}
  {bad bad' : QueryError → QueryError → Prop}

/-- Two outcomes are values of one relation, or errors of another one. -/
inductive Agree (good : α → α → Prop) (bad : QueryError → QueryError → Prop) :
    Except QueryError α → Except QueryError α → Prop where
  | ok {a b : α} (h : good a b) : Agree good bad (.ok a) (.ok b)
  | error {err err' : QueryError} (h : bad err err') : Agree good bad (.error err) (.error err')

theorem Agree.bind {x y : Except QueryError α} {f g : α → Except QueryError β}
    (hx : Agree good bad x y) (hf : ∀ a b, good a b → Agree good' bad (f a) (g b)) :
    Agree good' bad (x >>= f) (y >>= g) := by
  cases hx with
  | ok h => exact hf _ _ h
  | error h => exact .error h

end

/-- Two errors differ by their places at most, and these are related. -/
inductive Displaced (R : Place → Place → Prop) : QueryError → QueryError → Prop where
  | parse (fault : Fault) {place place' : Place} (h : R place place') :
      Displaced R (.parse fault place) (.parse fault place')
  | other {err : QueryError} (h : ∀ fault place, err ≠ .parse fault place) : Displaced R err err

namespace Expr

/-! ## Tokens side by side -/

variable {R : Place → Place → Prop}

namespace Tokens

/-- The same tokens at places that are related, with no error at their head. -/
structure Moved (R : Place → Place → Prop) (ts ts' : Tokens) : Prop where
  ahead : List.Forall₂ (fun t t' => t.kind = t'.kind ∧ R t.place t'.place) ts.ahead ts'.ahead
  stop : Agree R (Displaced R) ts.stop ts'.stop
  stops : ts.ahead = [] → ∃ place, ts.stop = .ok place

variable {ts ts' : Tokens}

theorem Moved.length_eq (h : Moved R ts ts') : ts.ahead.length = ts'.ahead.length :=
  h.ahead.length_eq

theorem Moved.current?_eq (h : Moved R ts ts') : ts.current? = ts'.current? := by
  obtain ⟨ahead, stop⟩ := ts
  obtain ⟨ahead', stop'⟩ := ts'
  cases h.ahead with
  | nil => rfl
  | cons htoken _ => exact congrArg some htoken.1

theorem Moved.place (h : Moved R ts ts') : R ts.place ts'.place := by
  obtain ⟨ahead, stop⟩ := ts
  obtain ⟨ahead', stop'⟩ := ts'
  obtain ⟨hahead, hstop, hstops⟩ := h
  cases hahead with
  | cons htoken _ => exact htoken.2
  | nil =>
      obtain ⟨place, rfl⟩ := hstops rfl
      cases hstop with
      | ok hplace => exact hplace

theorem checked_moved
    (hahead : List.Forall₂ (fun t t' => t.kind = t'.kind ∧ R t.place t'.place) ts.ahead ts'.ahead)
    (hstop : Agree R (Displaced R) ts.stop ts'.stop) :
    Agree (Moved R) (Displaced R) ts.checked ts'.checked := by
  obtain ⟨ahead, stop⟩ := ts
  obtain ⟨ahead', stop'⟩ := ts'
  cases hahead with
  | cons htoken hmore => exact .ok ⟨.cons htoken hmore, hstop, nofun⟩
  | nil =>
      cases hstop with
      | error herr => exact .error herr
      | ok hplace => exact .ok ⟨.nil, .ok hplace, fun _ => ⟨_, rfl⟩⟩

theorem Moved.advance (h : Moved R ts ts') :
    Agree (Moved R) (Displaced R) ts.advance ts'.advance := by
  obtain ⟨ahead, stop⟩ := ts
  obtain ⟨ahead', stop'⟩ := ts'
  refine checked_moved ?_ h.stop
  cases h.ahead with
  | nil => exact .nil
  | cons _ hmore => exact hmore

theorem Moved.fail {α : Type} {good : α → α → Prop} (h : Moved R ts ts') (fault : Fault) :
    Agree good (Displaced R) (ts.fail fault) (ts'.fail fault) :=
  .error (.parse fault h.place)

theorem Moved.unexpected {α : Type} {good : α → α → Prop} (h : Moved R ts ts') :
    Agree good (Displaced R) ts.unexpected ts'.unexpected := by
  rw [Tokens.unexpected, Tokens.unexpected, h.current?_eq]
  exact h.fail _

theorem Moved.expect (h : Moved R ts ts') (kind : TokenKind) (what : String) :
    Agree (Moved R) (Displaced R) (ts.expect kind what) (ts'.expect kind what) := by
  rw [Tokens.expect, Tokens.expect, h.current?_eq]
  split
  · exact h.advance
  · exact h.fail _

theorem Moved.peek (h : Moved R ts ts') : Agree Eq (Displaced R) ts.peek ts'.peek := by
  have hadvance := h.advance
  rw [Tokens.peek, Tokens.peek]
  generalize ts.advance = next at hadvance
  generalize ts'.advance = next' at hadvance
  cases hadvance with
  | error herr => exact .error herr
  | ok hts => exact .ok hts.current?_eq

end Tokens

open Tokens (Moved)

/-- The same is read, with the same tokens behind it. -/
structure SameRead {α : Type} (R : Place → Place → Prop) (read read' : α × Tokens) : Prop where
  value : read.1 = read'.1
  moved : Moved R read.2 read'.2

/-- A parser does not see places: it reads the same from the same tokens at other places. -/
def Blind {α : Type} (R : Place → Place → Prop) (parser : Parser α) : Prop :=
  ∀ ts ts', Moved R ts ts' → Agree (SameRead R) (Displaced R) (parser ts) (parser ts')

theorem Blind.bind {α β : Type} {good : β → β → Prop} {parser : Parser α}
    (hparser : Blind R parser) {ts ts' : Tokens} (h : Moved R ts ts')
    {f g : α × Tokens → Except QueryError β}
    (hf : ∀ a ts ts', Moved R ts ts' → Agree good (Displaced R) (f (a, ts)) (g (a, ts'))) :
    Agree good (Displaced R) (parser ts >>= f) (parser ts' >>= g) := by
  refine (hparser ts ts' h).bind fun read read' hread => ?_
  obtain ⟨a, ts⟩ := read
  obtain ⟨a', ts'⟩ := read'
  obtain ⟨rfl, hmoved⟩ := hread
  exact hf a ts ts' hmoved

/-! ## Chains of operands -/

section
variable {operand : Parser Expr} (h : Blind R operand)
include h

theorem blind_chainFrom (join? : TokenKind → Option (Expr → Expr → Expr)) (rounds : Nat)
    (left : Expr) : Blind R (chainFrom operand join? rounds left) := by
  induction rounds generalizing left with
  | zero => exact fun ts ts' hts => .ok ⟨rfl, hts⟩
  | succ rounds ih =>
      intro ts ts' hts
      rw [chainFrom, chainFrom, hts.current?_eq]
      split
      · exact .ok ⟨rfl, hts⟩
      · exact hts.advance.bind fun ts ts' hts =>
          h.bind hts fun right ts ts' hts => ih _ ts ts' hts

theorem blind_chain (join? : TokenKind → Option (Expr → Expr → Expr)) :
    Blind R (chain join? operand) := by
  intro ts ts' hts
  refine h.bind hts fun left ts ts' hts => ?_
  dsimp only
  rw [hts.length_eq]
  exact blind_chainFrom h join? _ left ts ts' hts

theorem blind_negationFrom (rounds : Nat) : Blind R (negationFrom operand rounds) := by
  induction rounds with
  | zero => exact h
  | succ rounds ih =>
      intro ts ts' hts
      rw [negationFrom, negationFrom, hts.current?_eq]
      split
      · exact hts.advance.bind fun ts ts' hts => ih.bind hts fun e ts ts' hts => .ok ⟨rfl, hts⟩
      · exact h ts ts' hts

theorem blind_negation : Blind R (negation operand) := by
  intro ts ts' hts
  rw [negation, negation, hts.length_eq]
  exact blind_negationFrom h _ ts ts' hts

end

/-! ## Node tests and axes -/

theorem blind_typeTarget (text : String) : Blind R (typeTarget text) := by
  intro ts ts' hts
  refine (hts.expect _ _).bind fun ts ts' hts => ?_
  rw [hts.current?_eq]
  split
  · split
    · exact hts.advance.bind fun ts ts' hts =>
        (hts.expect _ _).bind fun ts ts' hts => .ok ⟨rfl, hts⟩
    · exact (hts.expect _ _).bind fun ts ts' hts => .ok ⟨rfl, hts⟩
  · exact (hts.expect _ _).bind fun ts ts' hts => .ok ⟨rfl, hts⟩

theorem blind_nodeTest : Blind R nodeTest := by
  intro ts ts' hts
  rw [nodeTest.eq_def, nodeTest.eq_def, hts.current?_eq]
  split
  · exact hts.advance.bind fun ts ts' hts => .ok ⟨rfl, hts⟩
  · exact hts.advance.bind fun ts ts' hts => .ok ⟨rfl, hts⟩
  · exact hts.advance.bind fun ts ts' hts => .ok ⟨rfl, hts⟩
  · exact hts.advance.bind fun ts ts' hts =>
      (blind_typeTarget _).bind hts fun target ts ts' hts => .ok ⟨rfl, hts⟩
  · exact hts.fail _

theorem blind_stepAxis : Blind R stepAxis := by
  intro ts ts' hts
  rw [stepAxis.eq_def, stepAxis.eq_def, hts.current?_eq]
  split
  · exact hts.advance.bind fun ts ts' hts => .ok ⟨rfl, hts⟩
  · split
    · exact .error (.other fun _ _ h => by cases h)
    · exact hts.advance.bind fun ts ts' hts =>
        (hts.expect _ _).bind fun ts ts' hts => .ok ⟨rfl, hts⟩
  · exact .ok ⟨rfl, hts⟩

theorem agree_atStep {ts ts' : Tokens} (hts : Moved R ts ts') :
    Agree Eq (Displaced R) (atStep ts) (atStep ts') := by
  rw [atStep.eq_def, atStep.eq_def, hts.current?_eq]
  split
  · exact hts.peek.bind fun next next' hnext => hnext ▸ .ok rfl
  · exact hts.peek.bind fun next next' hnext => hnext ▸ .ok rfl
  all_goals exact .ok rfl

/-! ## Predicates, calls, steps and paths -/

section
variable {nested : Parser Expr} (h : Blind R nested)
include h

theorem blind_predicate : Blind R (predicate nested) := by
  intro ts ts' hts
  exact hts.advance.bind fun ts ts' hts => h.bind hts fun e ts ts' hts =>
    (hts.expect _ _).bind fun ts ts' hts => .ok ⟨rfl, hts⟩

theorem blind_predicatesFrom (rounds : Nat) : Blind R (predicatesFrom nested rounds) := by
  induction rounds with
  | zero => exact fun ts ts' hts => .ok ⟨rfl, hts⟩
  | succ rounds ih =>
      intro ts ts' hts
      rw [predicatesFrom, predicatesFrom, hts.current?_eq]
      split
      · exact (blind_predicate h).bind hts fun e ts ts' hts =>
          ih.bind hts fun es ts ts' hts => .ok ⟨rfl, hts⟩
      · exact .ok ⟨rfl, hts⟩

theorem blind_predicates : Blind R (predicates nested) := by
  intro ts ts' hts
  rw [predicates, predicates, hts.length_eq]
  exact blind_predicatesFrom h _ ts ts' hts

theorem blind_argumentsFrom (rounds : Nat) : Blind R (argumentsFrom nested rounds) := by
  induction rounds with
  | zero => exact fun ts ts' hts => .ok ⟨rfl, hts⟩
  | succ rounds ih =>
      intro ts ts' hts
      rw [argumentsFrom, argumentsFrom, hts.current?_eq]
      split
      · exact hts.advance.bind fun ts ts' hts => h.bind hts fun e ts ts' hts =>
          ih.bind hts fun es ts ts' hts => .ok ⟨rfl, hts⟩
      · exact .ok ⟨rfl, hts⟩

theorem blind_arguments : Blind R (arguments nested) := by
  intro ts ts' hts
  rw [arguments, arguments, hts.current?_eq]
  split
  · exact .ok ⟨rfl, hts⟩
  · refine h.bind hts fun e ts ts' hts => ?_
    dsimp only
    rw [hts.length_eq]
    exact (blind_argumentsFrom h _).bind hts fun es ts ts' hts => .ok ⟨rfl, hts⟩

theorem blind_functionCall (function : String) : Blind R (functionCall nested function) := by
  intro ts ts' hts
  exact hts.advance.bind fun ts ts' hts => (hts.expect _ _).bind fun ts ts' hts =>
    (blind_arguments h).bind hts fun args ts ts' hts =>
      (hts.expect _ _).bind fun ts ts' hts => .ok ⟨rfl, hts⟩

theorem blind_stepParser : Blind R (stepParser nested) := by
  intro ts ts' hts
  rw [stepParser.eq_def, stepParser.eq_def, hts.current?_eq]
  split
  · exact hts.advance.bind fun ts ts' hts => .ok ⟨rfl, hts⟩
  · exact hts.advance.bind fun ts ts' hts => .ok ⟨rfl, hts⟩
  · exact blind_stepAxis.bind hts fun axis ts ts' hts =>
      blind_nodeTest.bind hts fun test ts ts' hts =>
        (blind_predicates h).bind hts fun es ts ts' hts => .ok ⟨rfl, hts⟩

theorem blind_stepsFrom (rounds : Nat) : Blind R (stepsFrom nested rounds) := by
  induction rounds with
  | zero => exact fun ts ts' hts => .ok ⟨rfl, hts⟩
  | succ rounds ih =>
      intro ts ts' hts
      rw [stepsFrom, stepsFrom, hts.current?_eq]
      split
      · exact hts.advance.bind fun ts ts' hts => (blind_stepParser h).bind hts
          fun e ts ts' hts => ih.bind hts fun es ts ts' hts => .ok ⟨rfl, hts⟩
      · exact hts.advance.bind fun ts ts' hts => (blind_stepParser h).bind hts
          fun e ts ts' hts => ih.bind hts fun es ts ts' hts => .ok ⟨rfl, hts⟩
      · exact .ok ⟨rfl, hts⟩

theorem blind_steps : Blind R (steps nested) := by
  intro ts ts' hts
  refine (blind_stepParser h).bind hts fun e ts ts' hts => ?_
  dsimp only
  rw [hts.length_eq]
  exact (blind_stepsFrom h _).bind hts fun es ts ts' hts => .ok ⟨rfl, hts⟩

theorem blind_primary : Blind R (primary nested) := by
  intro ts ts' hts
  rw [primary.eq_def, primary.eq_def, hts.current?_eq]
  split
  · exact hts.advance.bind fun ts ts' hts => .ok ⟨rfl, hts⟩
  · exact hts.advance.bind fun ts ts' hts => .ok ⟨rfl, hts⟩
  · exact hts.advance.bind fun ts ts' hts => .ok ⟨rfl, hts⟩
  · exact hts.advance.bind fun ts ts' hts => h.bind hts fun e ts ts' hts =>
      (hts.expect _ _).bind fun ts ts' hts => .ok ⟨rfl, hts⟩
  · exact blind_functionCall h _ ts ts' hts
  · exact blind_functionCall h _ ts ts' hts
  · exact hts.unexpected

theorem blind_filterParser : Blind R (filterParser nested) := by
  intro ts ts' hts
  exact (blind_primary h).bind hts fun e ts ts' hts =>
    (blind_predicates h).bind hts fun es ts ts' hts => .ok ⟨rfl, hts⟩

theorem blind_absoluteTail : Blind R (absoluteTail nested) := by
  intro ts ts' hts
  refine (agree_atStep hts).bind fun atStep atStep' hatStep => ?_
  subst hatStep
  split
  · exact (blind_steps h).bind hts fun es ts ts' hts => .ok ⟨rfl, hts⟩
  · exact .ok ⟨rfl, hts⟩

theorem blind_filterPath : Blind R (filterPath nested) := by
  intro ts ts' hts
  refine (blind_filterParser h).bind hts fun e ts ts' hts => ?_
  dsimp only
  rw [hts.current?_eq]
  split
  · exact hts.advance.bind fun ts ts' hts =>
      (blind_steps h).bind hts fun es ts ts' hts => .ok ⟨rfl, hts⟩
  · exact hts.advance.bind fun ts ts' hts =>
      (blind_steps h).bind hts fun es ts ts' hts => .ok ⟨rfl, hts⟩
  · exact .ok ⟨rfl, hts⟩

theorem blind_path : Blind R (path nested) := by
  intro ts ts' hts
  rw [path.eq_def, path.eq_def, hts.current?_eq]
  split
  · exact hts.advance.bind fun ts ts' hts => blind_absoluteTail h ts ts' hts
  · exact hts.advance.bind fun ts ts' hts =>
      (blind_steps h).bind hts fun es ts ts' hts => .ok ⟨rfl, hts⟩
  · refine (agree_atStep hts).bind fun atStep atStep' hatStep => ?_
    subst hatStep
    split
    · exact (blind_steps h).bind hts fun es ts ts' hts => .ok ⟨rfl, hts⟩
    · exact blind_filterPath h ts ts' hts

theorem blind_levels : Blind R (levels nested) :=
  blind_chain (blind_chain (blind_chain (blind_chain (blind_chain (blind_chain (blind_negation
    (blind_chain (blind_path h) _)) _) _) _) _) _) _

end

/-! ## Whole expressions -/

theorem blind_parseNested (depth : Nat) : Blind R (parseNested depth) := by
  induction depth with
  | zero => exact fun ts ts' hts => hts.unexpected
  | succ depth ih => exact blind_levels ih

/-- Two texts with the same tokens are parsed alike, wherever the tokens stand. -/
theorem agree_parse {text text' : String}
    (hahead : List.Forall₂ (fun t t' => t.kind = t'.kind ∧ R t.place t'.place)
      (Tokens.ofText text).ahead (Tokens.ofText text').ahead)
    (hstop : Agree R (Displaced R) (Tokens.ofText text).stop (Tokens.ofText text').stop) :
    Agree Eq (Displaced R) (parse text) (parse text') := by
  refine (Tokens.checked_moved hahead hstop).bind fun ts ts' hts => ?_
  rw [hts.length_eq]
  refine (blind_parseNested _).bind hts fun e ts ts' hts => ?_
  dsimp only
  rw [hts.current?_eq]
  split
  · exact .ok rfl
  · exact hts.unexpected

/-! ## Places of errors -/

theorem StopsAt.agree {cs : List Char} {operatorAllowed : Bool} {upto : Nat}
    {stop : Except QueryError Place} (h : StopsAt cs operatorAllowed upto stop)
    {P : Place → Prop} (hupto : P (placeAt cs upto)) :
    Agree (fun place _ => P place) (Displaced fun place _ => P place) stop stop := by
  cases h with
  | finish => exact .ok hupto
  | fault => exact .error (.parse _ hupto)

end Expr

end TreeQuery
