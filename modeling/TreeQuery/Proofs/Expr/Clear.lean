import TreeQuery.Proofs.Expr.Rendered
import TreeQuery.Proofs.Number.Whole

/-!
Expressions that are read back from their texts as they are, with a minus sign in front of each
number that is negative: they are legible, and their paths are of steps. Each operation keeps this.
-/
namespace TreeQuery

/-- A test that can be written and read back. -/
def NodeTest.Clear (test : NodeTest) : Prop := test.Fitting ∧ test.Legible

namespace Expr

/-! ## Clear expressions -/

/-- What an expression itself needs to be read back as it is, its parts left aside. -/
structure Plain (e : Expr) : Prop where
  proper : Proper e
  legible : Legible e
  ofSteps : OfSteps e

/-- Without negative numbers, the expression is plain at every depth. -/
def Clear (e : Expr) : Prop := e.unsigned.Everywhere Plain

/-- The text of a clear expression is read as the expression without negative numbers. -/
theorem Clear.parse_render {e : Expr} (h : e.Clear) (hstep : e.isStep = false) :
    parse e.render = .ok e.unsigned := by
  have hproper : e.unsigned.Everywhere Proper := h.imp fun _ hplain => hplain.proper
  have hlegible : e.unsigned.Everywhere Legible := h.imp fun _ hplain => hplain.legible
  have hflat : e.unsigned.flat = e.unsigned :=
    flat_of_ofSteps (h.imp fun _ hplain => hplain.ofSteps)
  have hparse := parse_render_unsigned ⟨(isStep_unsigned e).trans hstep, hproper⟩ hlegible
  rwa [hflat] at hparse

theorem clear_iff {e : Expr} :
    e.Clear ↔ e.unsigned.Plain ∧ ∀ part ∈ e.unsigned.children, part.Everywhere Plain :=
  everywhere_iff

/-- A clear expression that any operation can take. -/
structure Operand (e : Expr) : Prop where
  clear : e.Clear
  isStep : e.isStep = false
  isRoot : e.isRoot = false

section
variable {left right : Expr} {parts : List Expr}

theorem clear_step {axis : Axis} {test : NodeTest} (htest : test.Clear)
    (h : ∀ e ∈ parts, e.Operand) : (step axis test parts).Clear := by
  have hsteps : ∀ e ∈ unsignedAll parts, e.isStep = false := by
    simpa [forall_mem_unsignedAll] using fun e he => (h e he).isStep
  rw [clear_iff, unsigned]
  exact ⟨⟨⟨htest.1, hsteps⟩, htest.2, trivial⟩,
    forall_mem_unsignedAll.mpr fun e he => (h e he).clear⟩

/-- A path of steps. -/
theorem operand_relative (hne : parts ≠ []) (h : ∀ e ∈ parts, e.isStep = true ∧ e.Clear) :
    (relative parts).Operand := by
  have hsteps : ∀ e ∈ unsignedAll parts, e.isStep = true := by
    simpa [forall_mem_unsignedAll] using fun e he => (h e he).1
  refine ⟨?_, rfl, rfl⟩
  rw [clear_iff, unsigned]
  refine ⟨⟨?_, ?_, hsteps⟩, forall_mem_unsignedAll.mpr fun e he => (h e he).2⟩
  · cases parts with
    | nil => exact absurd rfl hne
    | cons first rest =>
        obtain ⟨hfirst, hrest⟩ := List.forall_mem_cons.mp hsteps
        exact ⟨first.unsigned, unsignedAll rest, rfl, hrest, .inl hfirst⟩
  · intro first hfirst
    have hstep := hsteps first (List.mem_of_head? hfirst)
    cases first with
    | step => exact ⟨rfl, rfl⟩
    | _ => cases hstep

theorem operand_binary {op : BinaryOp} (hleft : left.Operand) (hright : right.Operand) :
    (binary op left right).Operand := by
  refine ⟨?_, rfl, rfl⟩
  rw [clear_iff, unsigned]
  refine ⟨⟨?_, fun _ => (isRoot_unsigned left).trans hleft.isRoot, trivial⟩,
    forall_mem_pair.mpr ⟨hleft.clear, hright.clear⟩⟩
  exact ⟨(isStep_unsigned left).trans hleft.isStep, (isStep_unsigned right).trans hright.isStep⟩

theorem operand_union (hleft : left.Operand) (hright : right.Operand)
    (hleftNeg : left.unsigned.isNegation = false) (hrightNeg : right.unsigned.isNegation = false) :
    (union left right).Operand := by
  refine ⟨?_, rfl, rfl⟩
  rw [clear_iff, unsigned]
  refine ⟨⟨?_, ⟨hleftNeg, hrightNeg⟩, trivial⟩,
    forall_mem_pair.mpr ⟨hleft.clear, hright.clear⟩⟩
  exact ⟨(isStep_unsigned left).trans hleft.isStep, (isStep_unsigned right).trans hright.isStep⟩

theorem operand_call {name : String} (hname : FunctionName name) (h : ∀ e ∈ parts, e.Operand) :
    (call name parts).Operand := by
  have hsteps : ∀ e ∈ unsignedAll parts, e.isStep = false := by
    simpa [forall_mem_unsignedAll] using fun e he => (h e he).isStep
  refine ⟨?_, rfl, rfl⟩
  rw [clear_iff, unsigned]
  exact ⟨⟨⟨hname, hsteps⟩, trivial, trivial⟩,
    forall_mem_unsignedAll.mpr fun e he => (h e he).clear⟩

theorem operand_string {text : String} (h : '\"' ∉ text.toList ∨ '\x27' ∉ text.toList) :
    (string text).Operand := by
  refine ⟨?_, rfl, rfl⟩
  rw [clear_iff, unsigned]
  exact ⟨⟨h, trivial, trivial⟩, List.forall_mem_nil _⟩

theorem plain_ofNat {n : Nat} (hn : n ≤ Nat.pow 2 53) : (number (.ofNat n)).Plain :=
  ⟨⟨n, 0, Number.ofNat_eq_ofDecimal n⟩, Number.ofNat_ne_infinite hn, trivial⟩

/-- A negative integer is read as the unary minus of its absolute value. -/
theorem operand_ofInt {i : Int} (hi : i.natAbs ≤ Nat.pow 2 53) :
    (number (.ofInt i)).Operand := by
  refine ⟨?_, rfl, rfl⟩
  have hplain : (number (.ofNat i.natAbs)).Plain := plain_ofNat hi
  rcases lt_or_ge i 0 with hneg | hpos
  · rw [Clear, unsigned_of_lt ((Number.whole_ofInt hi).lt_zero_iff.mpr hneg), Number.abs_ofInt]
    refine .intro ⟨rfl, trivial, trivial⟩ (List.forall_mem_singleton.mpr ?_)
    exact .intro hplain (List.forall_mem_nil _)
  · have hlt : (Number.ofInt i).lt .zero = false := by
      rw [Bool.eq_false_iff, ne_eq, (Number.whole_ofInt hi).lt_zero_iff]
      exact not_lt.mpr hpos
    have hvalue : Number.ofInt i = .ofNat i.natAbs := by
      rw [← Number.ofInt_natCast, Int.natAbs_of_nonneg hpos]
    rw [Clear, unsigned_of_not_lt hlt, hvalue]
    exact .intro hplain (List.forall_mem_nil _)

end

end Expr

end TreeQuery
