import TreeQuery.Proofs.Expr.Flat
import TreeQuery.Proofs.Number.Nearest

/-!
Negative numbers as they are written: tokens know no negative number, only a minus sign and a number
behind it. An expression from a text has no negative number in it.
-/
namespace TreeQuery

namespace Expr

/-! ## Expressions without negative numbers -/

mutual

/-- The expression with the unary minus of its absolute value for each negative number in it. -/
def unsigned : Expr → Expr
  | absolute parts => absolute (unsignedAll parts)
  | relative parts => relative (unsignedAll parts)
  | step axis test predicates => step axis test (unsignedAll predicates)
  | filter primary predicates => filter (unsigned primary) (unsignedAll predicates)
  | binary op left right => binary op (unsigned left) (unsigned right)
  | union left right => union (unsigned left) (unsigned right)
  | negate operand => negate (unsigned operand)
  | call name args => call name (unsignedAll args)
  | string text => string text
  | number value => if value.lt .zero then negate (number value.abs) else number value
  | reference name => reference name

def unsignedAll : List Expr → List Expr
  | [] => []
  | e :: es => unsigned e :: unsignedAll es

end

theorem unsignedAll_eq_map (es : List Expr) : unsignedAll es = es.map unsigned := by
  induction es with
  | nil => rfl
  | cons e es ih => rw [unsignedAll, ih, List.map_cons]

theorem unsignedAll_eq_self {es : List Expr} (h : ∀ e ∈ es, e.unsigned = e) :
    unsignedAll es = es := by
  rw [unsignedAll_eq_map]
  exact (List.map_congr_left h).trans (List.map_id _)

theorem forall_mem_unsignedAll {P : Expr → Prop} {es : List Expr} :
    (∀ part ∈ unsignedAll es, P part) ↔ ∀ part ∈ es, P part.unsigned := by
  rw [unsignedAll_eq_map, List.forall_mem_map]

@[simp] theorem isStep_unsigned (e : Expr) : e.unsigned.isStep = e.isStep := by
  cases e with
  | number value =>
      rw [unsigned]
      split <;> rfl
  | _ => rfl

theorem unsigned_of_lt {value : Number} (h : value.lt .zero = true) :
    (number value).unsigned = negate (number value.abs) := by
  rw [unsigned, if_pos h]

theorem unsigned_of_not_lt {value : Number} (h : value.lt .zero = false) :
    (number value).unsigned = number value := by
  rw [unsigned, h, if_neg Bool.false_ne_true]

theorem unsigned_mem_children {e part : Expr} (h : part ∈ e.children) :
    part.unsigned ∈ e.unsigned.children := by
  have hall : ∀ es, part ∈ es → part.unsigned ∈ unsignedAll es := fun es hp => by
    rw [unsignedAll_eq_map]
    exact List.mem_map_of_mem hp
  cases e with
  | absolute es | relative es | step _ _ es | call _ es => exact hall es h
  | filter primary es => exact hall (primary :: es) h
  | binary _ left right | union left right => exact hall [left, right] h
  | negate operand => exact hall [operand] h
  | string | number | reference => cases h

/-- An expression from a text stays as it is. -/
theorem unsigned_of_proper {e : Expr} (h : e.Everywhere Proper) : e.unsigned = e := by
  induction h with
  | @intro e here _ ih =>
      cases e with
      | absolute es | relative es | step _ _ es | call _ es =>
          have hes : unsignedAll es = es := unsignedAll_eq_self ih
          rw [unsigned, hes]
      | filter primary es =>
          obtain ⟨hprimary, hes⟩ := List.forall_mem_cons.mp ih
          rw [unsigned, hprimary, unsignedAll_eq_self hes]
      | binary _ left right | union left right =>
          obtain ⟨hleft, hright⟩ := forall_mem_pair.mp ih
          rw [unsigned, hleft, hright]
      | negate operand => rw [unsigned, ih operand (List.mem_singleton.mpr rfl)]
      | string | reference => simp only [unsigned]
      | number value =>
          obtain ⟨digits, places, hvalue⟩ := here
          rw [hvalue]
          exact unsigned_of_not_lt (Number.ofDecimal_lt_zero digits places)

theorem unsignedAll_of_proper {es : List Expr} (h : ∀ e ∈ es, e.Everywhere Proper) :
    unsignedAll es = es := unsignedAll_eq_self fun e he => unsigned_of_proper (h e he)

/-! ## Paths of steps -/

/-- All parts of a path are steps. -/
def OfSteps : Expr → Prop
  | absolute parts | relative parts => ∀ part ∈ parts, part.isStep = true
  | _ => True

theorem flatAll_eq_self {es : List Expr} (h : ∀ e ∈ es, e.flat = e) : flatAll es = es := by
  rw [flatAll_eq_map]
  exact (List.map_congr_left h).trans (List.map_id _)

/-- Where all paths are of steps, none has another in front. -/
theorem flat_of_ofSteps {e : Expr} (h : e.Everywhere OfSteps) : e.flat = e := by
  induction h with
  | @intro e here _ ih =>
      cases e with
      | absolute es | step _ _ es | call _ es =>
          have hes : flatAll es = es := flatAll_eq_self ih
          rw [flat, hes]
      | relative es =>
          cases es with
          | nil => rfl
          | cons first rest =>
              obtain ⟨hfirst, hrest⟩ := List.forall_mem_cons.mp ih
              have hstep : first.isStep = true := here first List.mem_cons_self
              rw [flat, flatPath, hfirst, flatAll_eq_self hrest]
              cases first with
              | step => rfl
              | _ => cases hstep
      | filter primary es =>
          obtain ⟨hprimary, hes⟩ := List.forall_mem_cons.mp ih
          rw [flat, hprimary, flatAll_eq_self hes]
      | binary _ left right | union left right =>
          obtain ⟨hleft, hright⟩ := forall_mem_pair.mp ih
          rw [flat, hleft, hright]
      | negate operand => rw [flat, ih operand (List.mem_singleton.mpr rfl)]
      | string | number | reference => simp only [flat]

end Expr

end TreeQuery
