import TreeQuery.Number.Text
import TreeQuery.Proofs.Number.Nearest

/-!
The text of a finite number is read back as the number. Rounding depends on the ratio alone, and
the shortest decimal of a count is one that is rounded to the count.
-/
namespace TreeQuery.Number

/-! ## Rounding a ratio -/

theorem pow_ten_pos (k : Nat) : 0 < Nat.pow 10 k := Nat.pow_pos (by decide)

theorem roundDiv_mul_right (num den : Nat) {k : Nat} (hk : 0 < k) :
    roundDiv (num * k) (den * k) = roundDiv num den := by
  have hlt : ∀ a b : Nat, a * k < b * k ↔ a < b := fun a b => Nat.mul_lt_mul_right hk
  simp only [roundDiv, Nat.mul_div_mul_right _ _ hk, Nat.mul_mod_mul_right, ← Nat.mul_assoc, hlt]

theorem nearest_mul_right (num den : Nat) {k : Nat} (hk : 0 < k) :
    nearest (num * k) (den * k) = nearest num den := by
  simp only [nearest, Nat.mul_div_mul_right _ _ hk]
  rw [Nat.mul_right_comm den k, roundDiv_mul_right _ _ hk]

/-- Equal ratios are rounded to the same count. -/
theorem nearest_congr {num den num' den' : Nat} (hden : 0 < den) (hden' : 0 < den')
    (h : num * den' = num' * den) : nearest num den = nearest num' den' := by
  rw [← nearest_mul_right num den hden', h, Nat.mul_comm den, nearest_mul_right num' den' hden]

theorem nearest_rescale {num den num' den' unit count : Nat} (hden : 0 < den) (hden' : 0 < den')
    (h : nearest (num * unit) den = count) (hratio : num' * den = num * den') :
    nearest (num' * unit) den' = count := by
  refine (nearest_congr hden' hden ?_).trans h
  rw [Nat.mul_right_comm, Nat.mul_right_comm num, hratio]

/-! ## The shortest decimal -/

theorem readsAs_iff {count steps : Nat} :
    readsAs count steps = true ↔ nearest (steps * oneCount) (Nat.pow 10 1074) = count := by
  rw [readsAs, beq_iff_eq]

/-- Fives and twos make tens: a count in units of `2 ^ -k` is exact in units of `10 ^ -k`. -/
theorem nearest_exact {count : Nat} (h : IsCount count) (k : Nat) :
    nearest (count * Nat.pow 5 k * Nat.pow 2 k) (Nat.pow 10 k) = count := by
  have hten : Nat.pow 10 k = Nat.pow 5 k * Nat.pow 2 k := Nat.mul_pow 5 2 k
  refine Eq.trans (nearest_congr (pow_ten_pos k) Nat.one_pos ?_) (nearest_of_isCount h)
  rw [Nat.mul_one, hten, Nat.mul_assoc]

theorem readsAs_exactDecimal {count : Nat} (h : IsCount count) :
    readsAs count (exactDecimal count) = true := by
  rw [readsAs_iff]
  unfold exactDecimal oneCount
  generalize 1074 = k
  exact nearest_exact h k

theorem reads_of_pointBeside? {reads : Nat → Bool} {exact step digits : Nat}
    (h : pointBeside? reads exact step = some digits) : reads (digits * step) = true := by
  simp only [pointBeside?] at h
  split at h
  · cases h
    split <;> assumption
  · cases h
    assumption
  · cases h
    assumption
  · cases h

/-- Where all points of the grids read back, and the exact value does, the first one found does. -/
theorem reads_shortestFrom {reads : Nat → Bool} {exact : Nat} {point? : Nat → Option Nat}
    (hexact : reads exact = true)
    (hpoint : ∀ p digits, point? p = some digits → reads (digits * Nat.pow 10 p) = true)
    (bound : Nat) : ∃ p : Nat, (shortestFrom exact point? bound).exponent = (p : Int) - 1074 ∧
      reads ((shortestFrom exact point? bound).digits * Nat.pow 10 p) = true := by
  induction bound with
  | zero => exact ⟨0, rfl, by simpa [shortestFrom] using hexact⟩
  | succ bound ih =>
      rw [shortestFrom]
      split
      · exact ⟨bound + 1, rfl, hpoint _ _ ‹_›⟩
      · exact ih

theorem readsAs_shortest {count : Nat} (h : IsCount count) :
    ∃ p : Nat, (shortest count).exponent = (p : Int) - 1074 ∧
      readsAs count ((shortest count).digits * Nat.pow 10 p) = true :=
  reads_shortestFrom (readsAs_exactDecimal h) (fun _ _ => reads_of_pointBeside?) _

/-! ## Digits -/

theorem digitsValue_toDigits (n : Nat) : digitsValue (Nat.toDigits 10 n) = n :=
  Nat.ofDigitChars_ten_toDigits

theorem digitsValue_append_zeros (cs : List Char) (n : Nat) :
    digitsValue (cs ++ zeros n) = digitsValue cs * Nat.pow 10 n := by
  induction n with
  | zero => simp [zeros]
  | succ n ih =>
      rw [zeros, List.replicate_succ', ← List.append_assoc, ← zeros, digitsValue, List.foldl_append,
        ← digitsValue, ih, show Nat.pow 10 (n + 1) = Nat.pow 10 n * 10 from rfl]
      simp only [List.foldl_cons, List.foldl_nil, digitValue]
      rw [show ('0'.toNat - 48) = 0 from rfl, Nat.add_zero, Nat.mul_comm, Nat.mul_assoc]

theorem digitsValue_zeros_append (n : Nat) (cs : List Char) :
    digitsValue (zeros n ++ cs) = digitsValue cs := by
  induction n with
  | zero => rfl
  | succ n ih => exact ih

theorem isDigit_zeros (n : Nat) : ∀ c ∈ zeros n, c.isDigit = true := by
  intro c hc
  rw [List.eq_of_mem_replicate hc]
  rfl

/-! ## Texts -/

/-- A text of digits, and perhaps a point with more digits behind it. -/
structure Spelled (text whole fraction : List Char) : Prop where
  text_eq : text = whole ++ '.' :: fraction ∨ text = whole ∧ fraction = []
  whole_ne : whole ≠ []
  whole_digits : ∀ c ∈ whole, c.isDigit = true
  fraction_digits : ∀ c ∈ fraction, c.isDigit = true

theorem isDigit_toDigits (n : Nat) : ∀ c ∈ Nat.toDigits 10 n, c.isDigit = true :=
  fun _ hc => Nat.isDigit_of_mem_toDigits (by decide) (by decide) hc

theorem pow_ten_split {p k : Nat} (h : p ≤ k) :
    Nat.pow 10 p * Nat.pow 10 (k - p) = Nat.pow 10 k := by
  simp only [Nat.pow_eq]
  rw [← Nat.pow_add, Nat.add_sub_cancel' h]

section
variable {digits : List Char} (hdigits : ∀ c ∈ digits, c.isDigit = true)
include hdigits

theorem spelled_leading_zeros (n : Nat) :
    Spelled ('0' :: '.' :: (zeros n ++ digits)) ['0'] (zeros n ++ digits) where
  text_eq := .inl rfl
  whole_ne := List.cons_ne_nil _ _
  whole_digits := by simp
  fraction_digits := List.forall_mem_append.mpr ⟨isDigit_zeros n, hdigits⟩

theorem spelled_point_inside (hne : digits ≠ []) {i : Nat} (hi : 0 < i) :
    Spelled (digits.take i ++ '.' :: digits.drop i) (digits.take i) (digits.drop i) where
  text_eq := .inl rfl
  whole_ne hnil := (List.take_eq_nil_iff.mp hnil).elim (Nat.ne_of_gt hi) hne
  whole_digits c hc := hdigits c (List.mem_of_mem_take hc)
  fraction_digits c hc := hdigits c (List.mem_of_mem_drop hc)

theorem spelled_trailing_zeros (hne : digits ≠ []) (n : Nat) :
    Spelled (digits ++ zeros n) (digits ++ zeros n) [] where
  text_eq := .inr ⟨rfl, rfl⟩
  whole_ne hnil := hne (List.append_eq_nil_iff.mp hnil).1
  whole_digits := List.forall_mem_append.mpr ⟨hdigits, isDigit_zeros n⟩
  fraction_digits := by simp

end

/-- The text in positions of `n · 10 ^ (p - k)`, told by its digits and the place of the point. -/
theorem spelled_positional (n p k : Nat) :
    ∃ whole fraction,
      Spelled (positional (Nat.toDigits 10 n) ((Nat.toDigits 10 n).length + ((p : Int) - k))) whole
        fraction ∧
      digitsValue (whole ++ fraction) * Nat.pow 10 k =
        n * Nat.pow 10 p * Nat.pow 10 fraction.length := by
  have hvalue := digitsValue_toDigits n
  have hdigits := isDigit_toDigits n
  have hne : Nat.toDigits 10 n ≠ [] := List.ne_nil_of_length_pos Nat.length_toDigits_pos
  generalize Nat.toDigits 10 n = digits at hvalue hdigits hne ⊢
  rw [positional]
  split
  · refine ⟨_, _, spelled_leading_zeros hdigits _, ?_⟩
    have hplaces : (zeros (-(digits.length + ((p : Int) - k))).toNat ++ digits).length = k - p := by
      rw [List.length_append, zeros, List.length_replicate]
      omega
    rw [hplaces, Nat.mul_assoc, pow_ten_split (by omega)]
    refine congrArg (· * Nat.pow 10 k) (Eq.trans ?_ hvalue)
    exact digitsValue_zeros_append (_ + 1) digits
  · split
    · refine ⟨_, _, spelled_point_inside hdigits hne (by omega), ?_⟩
      have hplaces : (digits.drop (digits.length + ((p : Int) - k)).toNat).length = k - p := by
        rw [List.length_drop]
        omega
      rw [List.take_append_drop, hplaces, hvalue, Nat.mul_assoc, pow_ten_split (by omega)]
    · refine ⟨_, _, spelled_trailing_zeros hdigits hne _, ?_⟩
      have hzeros : (digits.length + ((p : Int) - k)).toNat - digits.length = p - k := by omega
      rw [List.append_nil, digitsValue_append_zeros, hvalue, hzeros, Nat.mul_assoc,
        Nat.mul_comm (Nat.pow 10 (p - k)), pow_ten_split (by omega)]
      exact (Nat.mul_one _).symm

/-- Digits with a point are a count when as many steps of `10 ^ -1074` are read as the count. -/
theorem ofDigits_of_readsAs {count steps k : Nat} {isCount : IsCount count}
    {whole fraction : List Char} (h : readsAs count steps = true) (hk : k = 1074)
    (hvalue : digitsValue (whole ++ fraction) * Nat.pow 10 k =
      steps * Nat.pow 10 fraction.length) :
    ofDigits whole fraction = finite false count isCount := by
  have hread := readsAs_iff.mp h
  generalize 1074 = ten at hread hk
  subst hk
  have hcount := nearest_rescale (pow_ten_pos k) (pow_ten_pos fraction.length) hread hvalue
  rw [ofDigits, ofDecimal, ofRatio]
  simp only [hcount, dif_pos isCount.1]

theorem exactDecimal_zero : exactDecimal 0 = 0 := (exactDecimal.eq_1 0).trans (Nat.zero_mul _)

theorem readsAs_zero (isCount : IsCount 0) : readsAs 0 0 = true := by
  have hreads := readsAs_exactDecimal isCount
  generalize readsAs 0 = reads at hreads ⊢
  rwa [exactDecimal_zero] at hreads

theorem spelled_zero (isCount : IsCount 0) : Spelled ['0'] ['0'] [] ∧
    ofDigits ['0'] [] = finite false 0 isCount := by
  refine ⟨⟨.inr ⟨rfl, rfl⟩, List.cons_ne_nil _ _, by simp, by simp⟩, ?_⟩
  obtain ⟨k, hk⟩ : ∃ k, k = 1074 := ⟨_, rfl⟩
  refine ofDigits_of_readsAs (readsAs_zero isCount) hk ?_
  rw [Nat.zero_mul]
  exact Nat.zero_mul _

/-- The text of a finite number that is not negative spells the number. -/
theorem spelled_render {count : Nat} (isCount : IsCount count) :
    ∃ whole fraction, Spelled (finite false count isCount).render.toList whole fraction ∧
      ofDigits whole fraction = finite false count isCount := by
  rw [render]
  split
  · rename_i hzero
    subst hzero
    exact ⟨_, _, spelled_zero isCount⟩
  · obtain ⟨k, hk⟩ : ∃ k, k = 1074 := ⟨_, rfl⟩
    obtain ⟨p, hexponent, hreads⟩ := readsAs_shortest isCount
    obtain ⟨whole, fraction, hspelled, hvalue⟩ := spelled_positional (shortest count).digits p k
    refine ⟨whole, fraction, ?_, ofDigits_of_readsAs hreads hk hvalue⟩
    simpa [shortestDigits, hexponent, signed, hk] using hspelled

/-- A negative number is written as a minus sign and its absolute value. -/
theorem toList_render_of_lt_zero {value : Number} (h : value.lt zero = true) :
    value.render.toList = '-' :: value.abs.render.toList := by
  rcases exists_of_lt_zero h with rfl | ⟨count, isCount, hcount, rfl⟩
  · rfl
  · simp [render, abs, hcount, signed]

end TreeQuery.Number
