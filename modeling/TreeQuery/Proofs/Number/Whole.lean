import TreeQuery.Proofs.Number.Nearest

/-!
Integers as numbers. Up to 2⁵³ in size every integer is a number, and sums, differences, remainders
and comparisons of such numbers are those of the integers, as long as the result is no larger.
-/
namespace TreeQuery.Number

variable {x y : Number} {i j : Int} {n : Nat} {negative : Bool}

theorem mul_pow_lt_pow {k l : Nat} (hn : n ≤ Nat.pow 2 53) (h : 53 + k < l) :
    n * Nat.pow 2 k < Nat.pow 2 l :=
  calc n * Nat.pow 2 k
      ≤ Nat.pow 2 53 * Nat.pow 2 k := Nat.mul_le_mul_right _ hn
    _ = Nat.pow 2 (53 + k) := (Nat.pow_add 2 53 k).symm
    _ < Nat.pow 2 l := Nat.pow_lt_pow_right (by decide) h

/-- Up to 2⁵³ ones are a count. -/
theorem isCount_whole (hn : n ≤ Nat.pow 2 53) : IsCount (n * oneCount) :=
  ⟨mul_pow_lt_pow hn (by decide), mul_pow_mod_excess hn⟩

theorem ofCount_whole (negative : Bool) (hn : n ≤ Nat.pow 2 53) :
    ofCount negative (n * oneCount) = .finite negative (n * oneCount) (isCount_whole hn) :=
  ofCount_of_isCount negative (isCount_whole hn)

/-- Up to 2⁵³ halves are a count. -/
theorem isCount_halves (hn : n ≤ Nat.pow 2 53) : IsCount (n * halfCount) :=
  ⟨mul_pow_lt_pow hn (by decide), mul_pow_mod_excess hn⟩

theorem oneCount_eq : oneCount = 2 * halfCount := by decide +kernel

/-- A natural number with a sign. -/
def withSign (negative : Bool) (n : Nat) : Int := if negative then -n else n

theorem withSign_mul (negative : Bool) (n k : Nat) :
    withSign negative (n * k) = withSign negative n * k := by
  cases negative with
  | true => exact (congrArg Neg.neg (Int.natCast_mul n k)).trans (Int.neg_mul _ _).symm
  | false => exact Int.natCast_mul n k

theorem natAbs_withSign (negative : Bool) (n : Nat) : (withSign negative n).natAbs = n := by
  cases negative <;> simp [withSign]

theorem withSign_not (negative : Bool) (n : Nat) :
    withSign (!negative) n = -withSign negative n := by
  cases negative <;> simp [withSign]

theorem withSign_add (negative : Bool) (n k : Nat) :
    withSign negative (n + k) = withSign negative n + withSign negative k := by
  cases negative with
  | true => exact (congrArg Neg.neg (Int.natCast_add n k)).trans Int.neg_add
  | false => exact Int.natCast_add n k

theorem withSign_sub (negative : Bool) {n k : Nat} (h : k ≤ n) :
    withSign negative (n - k) = withSign negative n - withSign negative k := by
  have hsum : withSign negative (n - k) + withSign negative k = withSign negative n := by
    rw [← withSign_add, Nat.sub_add_cancel h]
  omega

/-- The number is an integer of at most 2⁵³ in size. Zero may have either sign. -/
inductive Whole : Number → Int → Prop where
  | intro (negative : Bool) {n : Nat} (hn : n ≤ Nat.pow 2 53) :
      Whole (.finite negative (n * oneCount) (isCount_whole hn)) (withSign negative n)

theorem whole_ofCount (hn : n ≤ Nat.pow 2 53) (hi : withSign negative n = i) :
    Whole (ofCount negative (n * oneCount)) i := by
  rw [ofCount_whole negative hn, ← hi]
  exact .intro negative hn

theorem whole_ofInt (hi : i.natAbs ≤ Nat.pow 2 53) : Whole (ofInt i) i := by
  refine whole_ofCount hi ?_
  by_cases hneg : i < 0
  · simp only [withSign, decide_eq_true hneg, if_true]
    omega
  · simp only [withSign, decide_eq_false hneg, Bool.false_eq_true, if_false]
    omega

theorem ofNat_ne_infinite (hn : n ≤ Nat.pow 2 53) : ofNat n ≠ .infinite false := by
  rw [ofNat, ofCount_whole false hn]
  intro h
  cases h

theorem whole_ofNat (hn : n ≤ Nat.pow 2 53) : Whole (ofNat n) n := whole_ofCount hn rfl

namespace Whole

theorem isFinite (hx : Whole x i) : x.isFinite = true := by
  obtain @⟨negative, n, hn⟩ := hx
  rfl

/-! ## Comparisons -/

theorem level?_eq (hx : Whole x i) : x.level? = some (i * (oneCount : Nat)) := by
  obtain @⟨negative, n, hn⟩ := hx
  exact congrArg some (withSign_mul negative n oneCount)

theorem eq_iff (hx : Whole x i) (hy : Whole y j) : x.eq y = true ↔ i = j := by
  have hpos : ((oneCount : Nat) : Int) ≠ 0 := Int.natCast_ne_zero.mpr oneCount_ne_zero
  rw [eq_of_level? hx.level?_eq hy.level?_eq, beq_iff_eq]
  exact Int.mul_eq_mul_right_iff hpos

/-- A natural number too large to be kept exactly is not rounded to a much smaller one. -/
theorem eq_ofNat_iff (hx : Whole x i) (hi : i.natAbs < Nat.pow 2 52) (p : Nat) :
    x.eq (ofNat p) = true ↔ i = p := by
  rcases Nat.le_total p (Nat.pow 2 53) with hp | hp
  · exact hx.eq_iff (whole_ofNat hp)
  · have hpos : 0 < oneCount := Nat.pos_of_ne_zero oneCount_ne_zero
    have hle : Nat.pow 2 52 ≤ Nat.pow 2 53 := by decide
    have hlimit := (isCount_whole hle).1
    have htwice : 2 * Nat.pow 2 52 ≤ p := hp
    have hnearest := mul_le_nearest oneCount htwice
    have hlevel := eq_of_level? hx.level?_eq (level?_ofNat p)
    -- The counts are far too large to be written out.
    generalize nearest (p * oneCount) 1 = level, oneCount = one, countLimit = limit at *
    rw [hlevel, beq_iff_eq]
    refine iff_of_false (fun heq => ?_) fun heq => ?_
    · have hlt : i * (one : Int) < (Nat.pow 2 52 : Nat) * (one : Int) :=
        Int.mul_lt_mul_of_pos_right (by omega) (Int.natCast_pos.mpr hpos)
      have hmin := Nat.le_min.mpr ⟨hnearest, Nat.le_of_lt hlimit⟩
      rw [heq, ← Int.natCast_mul] at hlt
      omega
    · have hpow : Nat.pow 2 52 < Nat.pow 2 53 := by decide
      omega

theorem le_iff (hx : Whole x i) (hy : Whole y j) : x.le y = true ↔ i ≤ j := by
  have hpos : (0 : Int) < (oneCount : Nat) :=
    Int.natCast_pos.mpr (Nat.pos_of_ne_zero oneCount_ne_zero)
  rw [le, compareWith, hx.level?_eq, hy.level?_eq, decide_eq_true_iff]
  exact ⟨fun h => Int.le_of_mul_le_mul_right h hpos,
    fun h => Int.mul_le_mul_of_nonneg_right h (Int.le_of_lt hpos)⟩

theorem lt_zero_iff (hx : Whole x i) : x.lt zero = true ↔ i < 0 := by
  have hpos : (0 : Int) < (oneCount : Nat) :=
    Int.natCast_pos.mpr (Nat.pos_of_ne_zero oneCount_ne_zero)
  rw [Number.lt_zero_iff hx.level?_eq]
  exact ⟨fun h => Int.lt_of_mul_lt_mul_right (by rwa [Int.zero_mul]) (Int.le_of_lt hpos),
    fun h => Int.mul_neg_of_neg_of_pos h hpos⟩

/-- A finite number is below the positive infinity. -/
theorem lt_infinite (hx : Whole x i) : x.lt (.infinite false) = true := by
  obtain @⟨negative, n, hn⟩ := hx
  have hlt := (isCount_whole hn).1
  change decide ((if negative then -((n * oneCount : Nat) : Int) else (n * oneCount : Nat)) <
    ((countLimit : Nat) : Int)) = true
  -- The limit is far too large to be written out.
  generalize n * oneCount = count, countLimit = limit at hlt
  rw [decide_eq_true_iff]
  split <;> omega

/-! ## Arithmetic -/

theorem neg (hx : Whole x i) : Whole (-x) (-i) := by
  obtain @⟨negative, n, hn⟩ := hx
  rw [← withSign_not]
  exact .intro (!negative) hn

/-- The sum of integers is exact when it is not too large. -/
theorem add (hx : Whole x i) (hy : Whole y j) (hsum : (i + j).natAbs ≤ Nat.pow 2 53) :
    Whole (x + y) (i + j) := by
  obtain @⟨s, n, hn⟩ := hx
  obtain @⟨t, m, hm⟩ := hy
  have hlt : ∀ a b : Nat, a * oneCount < b * oneCount ↔ a < b := fun a b =>
    Nat.mul_lt_mul_right (Nat.pos_of_ne_zero oneCount_ne_zero)
  change Whole (Number.add _ _) _
  rw [Number.add]
  by_cases hsame : s = t
  · subst hsame
    rw [← withSign_add, natAbs_withSign] at hsum
    rw [if_pos (beq_self_eq_true s), ← Nat.add_mul]
    exact whole_ofCount hsum (withSign_add s n m)
  · obtain rfl : t = !s := Bool.eq_not.mpr (Ne.symm hsame)
    -- The smaller count is taken from the larger one, whose sign stays.
    rw [withSign_not, ← Int.sub_eq_add_neg, if_neg (by simp)]
    rcases Nat.lt_trichotomy n m with h | rfl | h
    · rw [if_neg (mt (hlt m n).mp (Nat.lt_asymm h)), if_pos ((hlt n m).mpr h), ← Nat.sub_mul]
      refine whole_ofCount (Nat.le_trans (Nat.sub_le m n) hm) ?_
      rw [withSign_sub _ (Nat.le_of_lt h), withSign_not, withSign_not]
      omega
    · rw [if_neg (Nat.lt_irrefl _), if_neg (Nat.lt_irrefl _), Int.sub_self]
      exact whole_ofNat (Nat.zero_le _)
    · rw [if_pos ((hlt m n).mpr h), ← Nat.sub_mul]
      exact whole_ofCount (Nat.le_trans (Nat.sub_le n m) hn) (withSign_sub s (Nat.le_of_lt h))

theorem sub (hx : Whole x i) (hy : Whole y j) (hsum : (i - j).natAbs ≤ Nat.pow 2 53) :
    Whole (x - y) (i - j) := hx.add hy.neg hsum

/-- The remainder is that of the division that truncates its quotient. -/
theorem rem (hx : Whole x i) (hy : Whole y j) (hj : j ≠ 0) : Whole (x % y) (i.tmod j) := by
  obtain @⟨s, n, hn⟩ := hx
  obtain @⟨t, m, hm⟩ := hy
  have hm0 : m ≠ 0 := by
    rintro rfl
    cases t <;> exact hj rfl
  have hsign : withSign s (n % m) = (withSign s n).tmod (withSign t m) := by
    cases s <;> cases t <;>
      simp only [withSign, if_true, Bool.false_eq_true, if_false, Int.neg_tmod,
        Int.tmod_neg, Int.ofNat_tmod]
  change Whole (Number.rem _ _) _
  rw [Number.rem, if_neg (Nat.mul_ne_zero hm0 oneCount_ne_zero), Nat.mul_mod_mul_right]
  exact whole_ofCount (Nat.le_trans (Nat.mod_le n m) hn) hsign

theorem trunc (hx : Whole x i) : Whole x.trunc i := by
  obtain @⟨negative, n, hn⟩ := hx
  change Whole (ofCount negative (n * oneCount / oneCount * oneCount)) _
  rw [Nat.mul_div_cancel _ (Nat.pos_of_ne_zero oneCount_ne_zero)]
  exact whole_ofCount hn rfl

/-- Rounding keeps a positive integer below 2⁵², where a half more is still exact. -/
theorem round (hx : Whole x i) (hpos : 0 < i) (hlt : i < Nat.pow 2 52) : Whole x.round i := by
  obtain @⟨negative, n, hn⟩ := hx
  obtain rfl : negative = false := by
    cases negative with
    | true => exact absurd hpos (by simp [withSign])
    | false => rfl
  have hhalves : 2 * n + 1 ≤ Nat.pow 2 53 := by
    have hn : (n : Int) < Nat.pow 2 52 := hlt
    have hpow : Nat.pow 2 53 = 2 * Nat.pow 2 52 := by decide
    omega
  have hhalf : half = .finite false (1 * halfCount) (isCount_halves (by decide)) := by
    have hone : half = ofCount false (1 * halfCount) := by rw [Nat.one_mul, half]
    rw [hone, ofCount_of_isCount]
  have hsum : Number.add (.finite false (n * oneCount) (isCount_whole hn)) half =
      .finite false ((2 * n + 1) * halfCount) (isCount_halves hhalves) := by
    have hcount : n * oneCount + 1 * halfCount = (2 * n + 1) * halfCount := by
      rw [oneCount_eq, Nat.add_mul, Nat.mul_comm 2 n, Nat.mul_assoc]
    rw [hhalf, Number.add, if_pos (beq_self_eq_true false), hcount, ofCount_of_isCount]
  have hfloor : (2 * n + 1) * halfCount / oneCount = n := by
    rw [oneCount_eq, Nat.mul_div_mul_right _ _ (pow_pos 1073)]
    omega
  change Whole (floor (Number.add _ half)) _
  rw [hsum, floor, roundWith, if_neg Bool.false_ne_true, hfloor]
  exact whole_ofCount hn rfl

end Whole

end TreeQuery.Number
