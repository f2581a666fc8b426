import Mathlib.Data.List.Forall2
import TreeQuery.Proofs.Expr.Everywhere

/-!
Pairs of expressions related at every depth, part by part, and the relation of two expressions of
one form, which differ in their node tests only.
-/
namespace TreeQuery.Expr

/-- Two expressions are related, and so are their parts at every depth, pairwise. -/
inductive Paired (R : Expr → Expr → Prop) : Expr → Expr → Prop where
  | intro {e e' : Expr} (here : R e e') (parts : List.Forall₂ (Paired R) e.children e'.children) :
      Paired R e e'

/-- Induction that reaches the parts of parts, too, as for one expression. -/
theorem Paired.induction_deep {R motive : Expr → Expr → Prop}
    (h : ∀ e e', R e e' → List.Forall₂ motive e.children e'.children →
      List.Forall₂ (fun part part' => R part part' ∧
        List.Forall₂ motive part.children part'.children) e.children e'.children → motive e e')
    {e e' : Expr} (hpaired : Paired R e e') : motive e e' := by
  suffices hboth : motive e e' ∧ R e e' ∧ List.Forall₂ motive e.children e'.children from hboth.1
  induction e using induction_on_children generalizing e' with
  | h e ih =>
      obtain ⟨here, parts⟩ := hpaired
      have hparts : List.Forall₂ (fun part part' => motive part part' ∧ R part part' ∧
          List.Forall₂ motive part.children part'.children) e.children e'.children :=
        ((List.forall₂_and_left _ _).mpr ⟨fun _ hp => hp, parts⟩).imp fun part part' hp =>
          ih part hp.1 hp.2
      have hmotive : List.Forall₂ motive e.children e'.children := hparts.imp fun _ _ hp => hp.1
      exact ⟨h e e' here hmotive (hparts.imp fun _ _ hp => hp.2), here, hmotive⟩

/-- An expression is paired with its image under a function that acts on it part by part. -/
theorem Paired.of_everywhere {P : Expr → Prop} {R : Expr → Expr → Prop} {f : Expr → Expr}
    {e : Expr} (h : e.Everywhere P) (hR : ∀ part, P part → R part (f part))
    (hf : ∀ part, (f part).children = part.children.map f) : Paired R e (f e) := by
  induction h with
  | @intro e here parts ih =>
      refine .intro (hR e here) ?_
      rw [hf, List.forall₂_map_right_iff]
      exact List.forall₂_same.mpr ih

/-- What holds at every depth of the first expression adds to what is known of the pairs. -/
theorem Paired.imp_of_everywhere {P : Expr → Prop} {R S : Expr → Expr → Prop} {e e' : Expr}
    (hpaired : Paired R e e') (he : e.Everywhere P)
    (hS : ∀ part part', R part part' → P part → S part part') : Paired S e e' := by
  induction he generalizing e' with
  | @intro e here parts ih =>
      obtain ⟨hhere, hparts⟩ := hpaired
      exact .intro (hS e e' hhere here) <|
        ((List.forall₂_and_left _ _).mpr ⟨fun _ hp => hp, hparts⟩).imp fun part _ hp =>
          ih part hp.1 hp.2

/-- Two expressions that, aside from their parts, differ in their node tests only: the tests are
related along their axis, and the names of variables are among some names. -/
inductive SameForm (tests : Axis → NodeTest → NodeTest → Prop) (names : String → Prop) :
    Expr → Expr → Prop where
  | absolute (es es' : List Expr) : SameForm tests names (.absolute es) (.absolute es')
  | relative (es es' : List Expr) : SameForm tests names (.relative es) (.relative es')
  | step {axis : Axis} {test test' : NodeTest} (htest : tests axis test test')
      (es es' : List Expr) : SameForm tests names (.step axis test es) (.step axis test' es')
  | filter (primary primary' : Expr) (es es' : List Expr) :
      SameForm tests names (.filter primary es) (.filter primary' es')
  | binary (op : BinaryOp) (left left' right right' : Expr) :
      SameForm tests names (.binary op left right) (.binary op left' right')
  | union (left left' right right' : Expr) :
      SameForm tests names (.union left right) (.union left' right')
  | negate (operand operand' : Expr) : SameForm tests names (.negate operand) (.negate operand')
  | string (text : String) : SameForm tests names (.string text) (.string text)
  | number (value : Number) : SameForm tests names (.number value) (.number value)
  | call (name : String) (es es' : List Expr) :
      SameForm tests names (.call name es) (.call name es')
  | reference {name : String} (hname : names name) :
      SameForm tests names (.reference name) (.reference name)

namespace SameForm

variable {tests : Axis → NodeTest → NodeTest → Prop} {names : String → Prop}

theorem refl {e : Expr} (hstep : ∀ axis test es, e = .step axis test es → tests axis test test)
    (hreference : ∀ name, e = .reference name → names name) : SameForm tests names e e := by
  cases e with
  | step axis test es => exact .step (hstep axis test es rfl) es es
  | reference name => exact .reference (hreference name rfl)
  | absolute | relative | filter | binary | union | negate | string | number | call => constructor

theorem isStep_eq {e e' : Expr} (h : SameForm tests names e e') : e'.isStep = e.isStep := by
  cases h <;> rfl

end SameForm

end TreeQuery.Expr
