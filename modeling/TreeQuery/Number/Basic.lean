/-!
Double-precision numbers. A finite number is a sign and a whole count of units of 2⁻¹⁰⁷⁴, the least
distance between two numbers. Sums and remainders are then exact on counts; every operation says
which ratio of counts it means, and `nearest` rounds that ratio to a count of 53 significant bits.
-/
namespace TreeQuery

namespace Number

/-! ## Counts -/

/-- One, counted in units. -/
abbrev oneCount : Nat := Nat.pow 2 1074

/-- A half, counted in units. -/
abbrev halfCount : Nat := Nat.pow 2 1073

/-- Counts from here on are too large for a finite number. -/
abbrev countLimit : Nat := Nat.pow 2 2098

/-- How many bits a count has beyond the 53 that a number keeps. -/
def excess (n : Nat) : Nat := n.log2 + 1 - 53

/-- The whole number nearest to `num / den`; a half goes to the even neighbour. -/
def roundDiv (num den : Nat) : Nat :=
  let q := num / den
  let r := num % den
  if 2 * r < den then q else if den < 2 * r then q + 1 else q + q % 2

/-- The count with at most 53 significant bits that is nearest to `num / den`. -/
def nearest (num den : Nat) : Nat :=
  let k := excess (num / den)
  roundDiv num (den * Nat.pow 2 k) * Nat.pow 2 k

/-- A count that a finite number can have: small enough, and without bits beyond the 53. -/
def IsCount (n : Nat) : Prop := n < countLimit ∧ n % Nat.pow 2 (excess n) = 0

instance (n : Nat) : Decidable (IsCount n) := inferInstanceAs (Decidable (_ ∧ _))

/-- Rounding moves to one of the two whole neighbours. -/
theorem roundDiv_le (num den : Nat) : roundDiv num den ≤ num / den + 1 := by
  simp only [roundDiv]
  split
  · omega
  · split <;> omega

/-- Without its excess bits a count has at most 53. -/
theorem div_pow_excess_lt (n : Nat) : n / Nat.pow 2 (excess n) < Nat.pow 2 53 := by
  simp only [Nat.pow_eq]
  rw [Nat.div_lt_iff_lt_mul (Nat.two_pow_pos _), ← Nat.pow_add]
  exact Nat.lt_of_lt_of_le Nat.lt_log2_self
    (Nat.pow_le_pow_right (by decide) (by unfold excess; omega))

/-- Up to 2⁵³ times a power of two has no bits beyond the 53. -/
theorem mul_pow_mod_excess {m k : Nat} (h : m ≤ Nat.pow 2 53) :
    m * Nat.pow 2 k % Nat.pow 2 (excess (m * Nat.pow 2 k)) = 0 := by
  simp only [Nat.pow_eq] at h ⊢
  apply Nat.mod_eq_zero_of_dvd
  rcases Nat.lt_or_eq_of_le h with h | rfl
  · rcases Nat.eq_zero_or_pos m with rfl | hm
    · simp
    · refine Nat.dvd_trans (Nat.pow_dvd_pow 2 ?_) (Nat.dvd_mul_left _ m)
      have hne : m * 2 ^ k ≠ 0 := Nat.mul_ne_zero (by omega) (Nat.ne_of_gt (Nat.two_pow_pos k))
      have hlt : (m * 2 ^ k).log2 < 53 + k := by
        rw [Nat.log2_lt hne, Nat.pow_add]
        exact Nat.mul_lt_mul_of_pos_right h (Nat.two_pow_pos k)
      unfold excess
      omega
  · rw [← Nat.pow_add]
    apply Nat.pow_dvd_pow
    unfold excess
    rw [Nat.log2_two_pow]
    omega

theorem nearest_mod_excess (num den : Nat) :
    nearest num den % Nat.pow 2 (excess (nearest num den)) = 0 := by
  apply mul_pow_mod_excess
  have h := roundDiv_le num (den * Nat.pow 2 (excess (num / den)))
  rw [← Nat.div_div_eq_div_mul] at h
  have := div_pow_excess_lt (num / den)
  omega

end Number

/-! ## Numbers -/

/-- A double-precision number: not a number, an infinity, or a signed count of units. -/
inductive Number where
  | nan
  | infinite (negative : Bool)
  | finite (negative : Bool) (count : Nat) (isCount : Number.IsCount count)
deriving DecidableEq

namespace Number

instance : Inhabited Number := ⟨.nan⟩

/-- The number nearest to `num / den` units, with a sign; too large a ratio is infinite. -/
def ofRatio (negative : Bool) (num den : Nat) : Number :=
  if h : nearest num den < countLimit then
    .finite negative (nearest num den) ⟨h, nearest_mod_excess num den⟩
  else .infinite negative

/-- The number nearest to a count of units, with a sign. -/
def ofCount (negative : Bool) (count : Nat) : Number := ofRatio negative count 1

/-- The number nearest to a natural number. -/
def ofNat (n : Nat) : Number := ofCount false (n * oneCount)

/-- The number nearest to an integer; zero is positive. -/
def ofInt (i : Int) : Number := ofCount (i < 0) (i.natAbs * oneCount)

/-- The number `digits / 10 ^ places`, rounded. -/
def ofDecimal (digits places : Nat) : Number := ofRatio false (digits * oneCount) (Nat.pow 10 places)

def zero : Number := ofNat 0

def one : Number := ofNat 1

def half : Number := ofCount false halfCount

/-- The number with the given bits: sign, eleven bits of exponent, 52 bits of fraction. -/
def ofBits (bits : UInt64) : Number :=
  let n := bits.toNat
  let negative := n / Nat.pow 2 63 == 1
  let exponent := n / Nat.pow 2 52 % Nat.pow 2 11
  let fraction := n % Nat.pow 2 52
  if exponent == 2047 then if fraction == 0 then .infinite negative else .nan
  else if exponent == 0 then ofCount negative fraction
  else ofCount negative ((Nat.pow 2 52 + fraction) * Nat.pow 2 (exponent - 1))

/-! ## Classes and order -/

def isNaN : Number → Bool
  | .nan => true
  | _ => false

def isFinite : Number → Bool
  | .finite .. => true
  | _ => false

/-- Where a number lies on the line, in units; the infinities lie at the ends. -/
def level? : Number → Option Int
  | .nan => none
  | .infinite negative => some (if negative then -(countLimit : Int) else countLimit)
  | .finite negative count _ => some (if negative then -(count : Int) else count)

/-- Compares two numbers by their levels; nothing holds of what is not a number. -/
def compareWith (holds : Int → Int → Bool) (x y : Number) : Bool :=
  match x.level?, y.level? with
  | some a, some b => holds a b
  | _, _ => false

def eq (x y : Number) : Bool := compareWith (fun a b => a == b) x y

def lt (x y : Number) : Bool := compareWith (fun a b => a < b) x y

def le (x y : Number) : Bool := compareWith (fun a b => a ≤ b) x y

/-- Either zero. -/
def isZero (x : Number) : Bool := x.level? == some 0

/-! ## Arithmetic -/

def neg : Number → Number
  | .nan => .nan
  | .infinite negative => .infinite (!negative)
  | .finite negative count h => .finite (!negative) count h

def abs : Number → Number
  | .nan => .nan
  | .infinite _ => .infinite false
  | .finite _ count h => .finite false count h

/-- The sum. Opposite numbers add up to the positive zero. -/
def add : Number → Number → Number
  | .nan, _ => .nan
  | _, .nan => .nan
  | .infinite s, .infinite t => if s == t then .infinite s else .nan
  | .infinite s, _ => .infinite s
  | _, .infinite t => .infinite t
  | .finite s a _, .finite t b _ =>
    if s == t then ofCount s (a + b)
    else if b < a then ofCount s (a - b)
    else if a < b then ofCount t (b - a)
    else zero

def sub (x y : Number) : Number := add x (neg y)

/-- The product. Zero times an infinity is not a number. -/
def mul : Number → Number → Number
  | .nan, _ => .nan
  | _, .nan => .nan
  | .infinite s, .infinite t => .infinite (s != t)
  | .infinite s, .finite t b _ => if b = 0 then .nan else .infinite (s != t)
  | .finite s a _, .infinite t => if a = 0 then .nan else .infinite (s != t)
  | .finite s a _, .finite t b _ => ofRatio (s != t) (a * b) oneCount

/-- The quotient. Zero over zero and one infinity over another are not numbers. -/
def div : Number → Number → Number
  | .nan, _ => .nan
  | _, .nan => .nan
  | .infinite _, .infinite _ => .nan
  | .infinite s, .finite t _ _ => .infinite (s != t)
  | .finite s _ _, .infinite t => ofCount (s != t) 0
  | .finite s a _, .finite t b _ =>
    if b = 0 then if a = 0 then .nan else .infinite (s != t)
    else ofRatio (s != t) (a * oneCount) b

/-- The remainder of the division that truncates its quotient; it has the sign of the dividend. -/
def rem : Number → Number → Number
  | .finite s a _, .finite _ b _ => if b = 0 then .nan else ofCount s (a % b)
  | .finite s a h, .infinite _ => .finite s a h
  | _, _ => .nan

instance : Neg Number := ⟨neg⟩
instance : Add Number := ⟨add⟩
instance : Sub Number := ⟨sub⟩
instance : Mul Number := ⟨mul⟩
instance : Div Number := ⟨div⟩
instance : Mod Number := ⟨rem⟩

/-! ## Whole numbers -/

/-- Applies a rounding of signed counts of ones to a finite number, and keeps the others. -/
def roundWith (wholes : Bool → Nat → Nat) : Number → Number
  | .finite negative count _ => ofCount negative (wholes negative count * oneCount)
  | x => x

/-- Drops the fraction. -/
def trunc (x : Number) : Number := roundWith (fun _ count => count / oneCount) x

/-- The next whole number at or below. -/
def floor (x : Number) : Number :=
  roundWith (fun negative count => (if negative then count + oneCount - 1 else count) / oneCount) x

/-- The next whole number at or above. -/
def ceil (x : Number) : Number :=
  roundWith (fun negative count => (if negative then count else count + oneCount - 1) / oneCount) x

/-- The nearest whole number, where a half goes up. -/
def round (x : Number) : Number := floor (x + half)

end Number

end TreeQuery
