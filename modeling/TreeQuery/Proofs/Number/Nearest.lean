import TreeQuery.Number.Basic

/-!
Rounding to counts, and signs. Rounding keeps what is not zero from zero, so a number made from a
natural number equals zero only if the natural number is zero; and it keeps the sign.
-/
namespace TreeQuery.Number

theorem pow_pos (k : Nat) : 0 < Nat.pow 2 k := Nat.two_pow_pos k

theorem oneCount_ne_zero : oneCount ≠ 0 := by decide +kernel

theorem le_roundDiv (num den : Nat) : num / den ≤ roundDiv num den := by
  simp only [roundDiv]
  split
  · exact Nat.le_refl _
  · split
    · exact Nat.le_succ _
    · exact Nat.le_add_right _ _

theorem pow_excess_le {n : Nat} (hn : n ≠ 0) : Nat.pow 2 (excess n) ≤ n :=
  Nat.le_trans (Nat.pow_le_pow_right (by decide) (by unfold excess; omega)) (Nat.log2_self_le hn)

/-- A whole count is not rounded to zero. -/
theorem nearest_eq_zero_iff {n : Nat} : nearest n 1 = 0 ↔ n = 0 := by
  constructor
  · intro h
    refine Decidable.byContradiction fun hn => ?_
    have hpos : 0 < roundDiv n (1 * Nat.pow 2 (excess (n / 1))) := by
      refine Nat.lt_of_lt_of_le ?_ (le_roundDiv _ _)
      rw [Nat.one_mul, Nat.div_one]
      exact Nat.div_pos (pow_excess_le hn) (pow_pos _)
    exact Nat.ne_of_gt (Nat.mul_pos hpos (pow_pos _)) h
  · rintro rfl
    rfl

/-- Rounding takes no more than half of a whole count away. -/
theorem le_two_mul_nearest (n : Nat) : n ≤ 2 * nearest n 1 := by
  rcases Nat.eq_zero_or_pos n with rfl | hn
  · exact Nat.zero_le _
  · have hpos := pow_pos (excess n)
    have hkept : n / Nat.pow 2 (excess n) * Nat.pow 2 (excess n) ≤ nearest n 1 := by
      have hround := le_roundDiv n (Nat.pow 2 (excess n))
      rw [nearest, Nat.div_one, Nat.one_mul]
      exact Nat.mul_le_mul_right _ hround
    have hone : Nat.pow 2 (excess n) ≤ n / Nat.pow 2 (excess n) * Nat.pow 2 (excess n) :=
      Nat.le_mul_of_pos_left _ (Nat.div_pos (pow_excess_le (Nat.ne_of_gt hn)) hpos)
    have hlt := Nat.lt_div_mul_add hpos (a := n)
    omega

theorem mul_le_nearest {k n : Nat} (unit : Nat) (h : 2 * k ≤ n) :
    k * unit ≤ nearest (n * unit) 1 := by
  refine Nat.le_of_mul_le_mul_left ?_ Nat.zero_lt_two
  calc 2 * (k * unit)
      = 2 * k * unit := (Nat.mul_assoc 2 k unit).symm
    _ ≤ n * unit := Nat.mul_le_mul_right unit h
    _ ≤ 2 * nearest (n * unit) 1 := le_two_mul_nearest _

theorem nearest_of_isCount {count : Nat} (h : IsCount count) : nearest count 1 = count := by
  have hdvd := Nat.dvd_of_mod_eq_zero h.2
  simp only [nearest, roundDiv, Nat.div_one, Nat.one_mul, h.2, Nat.mul_zero]
  rw [if_pos (pow_pos _), Nat.div_mul_cancel hdvd]

theorem ofCount_of_isCount (negative : Bool) {count : Nat} (h : IsCount count) :
    ofCount negative count = .finite negative count h := by
  have hnearest := nearest_of_isCount h
  simp only [ofCount, ofRatio, hnearest, h.1, dif_pos]

theorem level?_ofRatio (num den : Nat) :
    (ofRatio false num den).level? = some ((min (nearest num den) countLimit : Nat) : Int) := by
  rw [ofRatio]
  split
  · rename_i h
    rw [Nat.min_eq_left (Nat.le_of_lt h)]
    rfl
  · rename_i h
    rw [Nat.min_eq_right (Nat.le_of_not_lt h)]
    rfl

theorem ofInt_natCast (n : Nat) : ofInt (n : Int) = ofNat n := by
  have hsign : decide ((n : Int) < 0) = false := decide_eq_false (by omega)
  rw [ofInt, Int.natAbs_natCast, hsign, ofNat]

theorem level?_ofNat (n : Nat) :
    (ofNat n).level? = some ((min (nearest (n * oneCount) 1) countLimit : Nat) : Int) := by
  rw [ofNat, ofCount, level?_ofRatio]

theorem level?_ofNat_zero : (ofNat 0).level? = some 0 := by
  rw [level?_ofNat, Nat.zero_mul, nearest_eq_zero_iff.mpr rfl, Nat.zero_min]
  rfl

theorem eq_of_level? {x y : Number} {a b : Int} (hx : x.level? = some a) (hy : y.level? = some b) :
    x.eq y = (a == b) := by
  rw [eq, compareWith, hx, hy]

theorem eq_symm (x y : Number) : x.eq y = y.eq x := by
  rw [eq, eq, compareWith, compareWith]
  cases x.level? <;> cases y.level? <;> simp [Bool.beq_comm]

theorem eq_ofNat_zero (n : Nat) : (ofNat n).eq (ofNat 0) = decide (n = 0) := by
  have hlimit : countLimit ≠ 0 := by decide +kernel
  refine (eq_of_level? (level?_ofNat n) level?_ofNat_zero).trans ?_
  rw [Bool.eq_iff_iff, beq_iff_eq, decide_eq_true_iff, Int.natCast_eq_zero, Nat.min_eq_zero_iff,
    or_iff_left hlimit, nearest_eq_zero_iff, Nat.mul_eq_zero, or_iff_left oneCount_ne_zero]

/-! ## Signs -/

theorem lt_zero_iff {value : Number} {i : Int} (h : value.level? = some i) :
    value.lt zero = true ↔ i < 0 := by
  rw [lt, compareWith, h, zero, level?_ofNat_zero]
  exact decide_eq_true_iff

/-- What is spelled by digits is not negative. -/
theorem ofDecimal_lt_zero (digits places : Nat) : (ofDecimal digits places).lt zero = false := by
  rw [Bool.eq_false_iff, ne_eq, ofDecimal, lt_zero_iff (level?_ofRatio _ _)]
  exact Int.not_lt.mpr (Int.natCast_nonneg _)

theorem exists_of_lt_zero {value : Number} (h : value.lt zero = true) :
    value = .infinite true ∨ ∃ count isCount, count ≠ 0 ∧ value = .finite true count isCount := by
  cases value with
  | nan => cases h
  | infinite negative =>
      cases negative with
      | true => exact .inl rfl
      | false => exact absurd ((lt_zero_iff rfl).mp h) (Int.not_lt.mpr (Int.natCast_nonneg _))
  | finite negative count isCount =>
      cases negative with
      | false => exact absurd ((lt_zero_iff rfl).mp h) (Int.not_lt.mpr (Int.natCast_nonneg _))
      | true =>
          refine .inr ⟨count, isCount, ?_, rfl⟩
          rintro rfl
          exact absurd ((lt_zero_iff rfl).mp h) (by simp)

theorem abs_ofRatio (negative : Bool) (num den : Nat) :
    (ofRatio negative num den).abs = ofRatio false num den := by
  rw [ofRatio, ofRatio]
  split <;> rfl

theorem abs_ofInt (i : Int) : (ofInt i).abs = ofNat i.natAbs := by
  rw [ofInt, ofCount, abs_ofRatio, ofNat, ofCount]

theorem ofNat_eq_ofDecimal (n : Nat) : ofNat n = ofDecimal n 0 := by
  rw [ofNat, ofCount, ofDecimal, Nat.pow_eq, Nat.pow_zero]

end TreeQuery.Number
