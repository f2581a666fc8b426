import Mathlib.Data.List.TakeWhile
import TreeQuery.Proofs.Selector.Lexed
import TreeQuery.Proofs.Text.Stops

/-!
The texts of a series of positions: `odd`, `even`, a number, or a factor, the letter `n` and an
offset. What is read from a text, without its blanks and in lower case, is what the grammar says.
-/
namespace TreeQuery.Selector.Nth

open TreeQuery.Text

/-! ## The grammar -/

/-- A sign, which may be left out, and the factor it stands for. -/
inductive Sign : List Char → Int → Prop where
  | none : Sign [] 1
  | plus : Sign ['+'] 1
  | minus : Sign ['-'] (-1)

/-- A run of digits and the number that it spells. -/
structure Digits (cs : List Char) (n : Nat) : Prop where
  ne_nil : cs ≠ []
  digits : ∀ c ∈ cs, c.isDigit = true
  value : Nat.ofDigitChars 10 cs 0 = n

/-- An integer of 32 bits: a sign, which may be left out, and digits. -/
inductive Signed : List Char → Int → Prop where
  | intro {cs ds : List Char} {sign i : Int} {n : Nat} (hsign : Sign cs sign)
      (hdigits : Digits ds n) (hvalue : i = sign * n) (hrange : inRange i = true) :
      Signed (cs ++ ds) i

/-- What stands in front of `n`. Without digits it is one, with the sign that is there. -/
inductive Factor : List Char → Int → Prop where
  | bare {cs : List Char} {sign : Int} (hsign : Sign cs sign) : Factor cs sign
  | signed {cs : List Char} {a : Int} (h : Signed cs a) : Factor cs a

/-- What stands behind `n`: nothing, or a sign and digits. -/
inductive Offset : List Char → Int → Prop where
  | nothing : Offset [] 0
  | signed {c : Char} {cs : List Char} {b : Int} (hsign : c = '+' ∨ c = '-')
      (h : Signed (c :: cs) b) : Offset (c :: cs) b

/-- The texts of a series, without blanks and in lower case. -/
inductive Spelled : List Char → Nth → Prop where
  | odd : Spelled ['o', 'd', 'd'] ⟨2, 1⟩
  | even : Spelled ['e', 'v', 'e', 'n'] ⟨2, 0⟩
  | constant {cs : List Char} {b : Int} (h : Signed cs b) : Spelled cs ⟨0, b⟩
  | linear {cs ds : List Char} {a b : Int} (hfactor : Factor cs a) (hoffset : Offset ds b) :
      Spelled (cs ++ 'n' :: ds) ⟨a, b⟩

/-- A text as a series is read from it: without blanks, and ASCII letters in lower case. -/
def fold (cs : List Char) : List Char := (cs.filter (!isBlank ·)).map Char.toLower

variable {c : Char} {cs ds : List Char} {n : Nat} {i : Int} {series : Nth}

/-! ## Integers -/

theorem digits?_eq_some_iff : digits? cs = some n ↔ Digits cs n := by
  have hvalue : cs.foldl (fun n c => 10 * n + (c.toNat - 48)) 0 = Nat.ofDigitChars 10 cs 0 := rfl
  rw [digits?, hvalue]
  constructor
  · intro h
    split at h
    · cases h
    · rename_i hcs
      simp only [Bool.or_eq_true, List.isEmpty_iff, Bool.not_eq_true', not_or,
        Bool.not_eq_false, List.all_eq_true] at hcs
      exact ⟨hcs.1, hcs.2, Option.some.inj h⟩
  · rintro ⟨hne, hdigits, rfl⟩
    rw [if_neg]
    simpa only [Bool.or_eq_true, List.isEmpty_iff, Bool.not_eq_true', not_or,
      Bool.not_eq_false, List.all_eq_true] using ⟨hne, hdigits⟩

theorem Digits.head (h : Digits (c :: cs) n) : c.isDigit = true :=
  h.digits c List.mem_cons_self

theorem signed?_eq_some_iff : signed? cs = some i ↔ Signed cs i := by
  rw [signed?.eq_def]
  simp only [Option.filter_eq_some_iff]
  constructor
  · rintro ⟨h, hrange⟩
    split at h
    · rename_i ds
      obtain ⟨n, hn, rfl⟩ : ∃ n, digits? ds = some n ∧ -(n : Int) = i := by
        simpa [Option.map_eq_some_iff, Option.bind_eq_some_iff] using h
      exact .intro .minus (digits?_eq_some_iff.mp hn) (Int.neg_one_mul n).symm hrange
    · obtain ⟨n, hn, rfl⟩ := Option.map_eq_some_iff.mp h
      exact .intro .plus (digits?_eq_some_iff.mp hn) (Int.one_mul n).symm hrange
    · obtain ⟨n, hn, rfl⟩ := Option.map_eq_some_iff.mp h
      exact .intro .none (digits?_eq_some_iff.mp hn) (Int.one_mul n).symm hrange
  · rintro ⟨hsign, hdigits, rfl, hrange⟩
    refine ⟨?_, hrange⟩
    have hdigits' := digits?_eq_some_iff.mpr hdigits
    cases hsign with
    | none =>
        rw [List.nil_append, Int.one_mul]
        -- The first two readings would need a sign where a digit stands.
        split
        · cases hdigits.head
        · cases hdigits.head
        · exact Option.map_eq_some_iff.mpr ⟨_, hdigits', rfl⟩
    | plus =>
        rw [Int.one_mul]
        exact Option.map_eq_some_iff.mpr ⟨_, hdigits', rfl⟩
    | minus =>
        rw [Int.neg_one_mul]
        exact Option.map_eq_some_iff.mpr ⟨_, by simp [hdigits'], rfl⟩

/-- Signs and digits, the only characters of an integer. -/
def isIntegerChar (c : Char) : Bool := c == '+' || c == '-' || c.isDigit

theorem Sign.isIntegerChar (h : Sign cs i) : ∀ c ∈ cs, isIntegerChar c = true := by
  cases h <;> simp [Nth.isIntegerChar]

theorem Signed.isIntegerChar (h : Signed cs i) : ∀ c ∈ cs, isIntegerChar c = true := by
  obtain ⟨hsign, hdigits, -, -⟩ := h
  intro c hc
  rcases List.mem_append.mp hc with hc | hc
  · exact hsign.isIntegerChar c hc
  · simp [Nth.isIntegerChar, hdigits.digits c hc]

theorem Factor.isIntegerChar (h : Factor cs i) : ∀ c ∈ cs, isIntegerChar c = true := by
  cases h with
  | bare hsign => exact hsign.isIntegerChar
  | signed h => exact h.isIntegerChar

/-! ## Series -/

theorem factor?_eq_some_iff : factor? cs = some i ↔ Factor cs i := by
  rw [factor?.eq_def]
  constructor
  · intro h
    split at h
    · cases h
      exact .bare .none
    · cases h
      exact .bare .plus
    · cases h
      exact .bare .minus
    · exact .signed (signed?_eq_some_iff.mp h)
  · rintro (hsign | h)
    · cases hsign <;> rfl
    · rw [← signed?_eq_some_iff] at h
      split
      · cases h
      · cases h
      · cases h
      · exact h

theorem offset?_eq_some_iff : offset? cs = some i ↔ Offset cs i := by
  rw [offset?.eq_def]
  constructor
  · intro h
    split at h
    · cases h
      exact .nothing
    · exact .signed (.inl rfl) (signed?_eq_some_iff.mp h)
    · exact .signed (.inr rfl) (signed?_eq_some_iff.mp h)
    · cases h
  · rintro (_ | ⟨rfl | rfl, h⟩)
    · rfl
    · exact signed?_eq_some_iff.mpr h
    · exact signed?_eq_some_iff.mpr h

theorem takeWhile_of_isIntegerChar (h : ∀ c ∈ cs, isIntegerChar c = true) :
    cs.takeWhile (· != 'n') = cs ∧ cs.dropWhile (· != 'n') = [] := by
  have hne : ∀ c ∈ cs, (c != 'n') = true := fun c hc => by
    rw [bne_iff_ne]
    rintro rfl
    cases h 'n' hc
  exact ⟨List.takeWhile_eq_self_iff.mpr hne, List.dropWhile_eq_nil_iff.mpr hne⟩

/-- A text is cut at its first `n`. -/
theorem cut_of_isIntegerChar (h : ∀ c ∈ cs, isIntegerChar c = true) (ds : List Char) :
    (cs ++ 'n' :: ds).takeWhile (· != 'n') = cs ∧
      (cs ++ 'n' :: ds).dropWhile (· != 'n') = 'n' :: ds := by
  obtain ⟨htake, hdrop⟩ := takeWhile_of_isIntegerChar h
  rw [List.takeWhile_append, List.dropWhile_append, htake, hdrop]
  simp

/-- A text with nothing but signs and digits in front of its first `n` is none of the two words. -/
theorem ne_words (h : ∀ c ∈ cs.takeWhile (· != 'n'), isIntegerChar c = true) :
    cs ≠ "odd".toList ∧ cs ≠ "even".toList := by
  constructor
  · rintro rfl
    exact absurd (h 'o' (by decide)) (by decide)
  · rintro rfl
    exact absurd (h 'e' (by decide)) (by decide)

theorem ofChars?_eq_some_iff : ofChars? cs = some series ↔ Spelled cs series := by
  constructor
  · intro h
    rw [ofChars?] at h
    split at h
    · cases h
      subst cs
      exact .odd
    · split at h
      · cases h
        subst cs
        exact .even
      · split at h
        · obtain ⟨b, hb, rfl⟩ := Option.map_eq_some_iff.mp h
          exact .constant (signed?_eq_some_iff.mp hb)
        · rename_i c rest hdrop
          simp only [Option.bind_eq_bind, Option.bind_eq_some_iff, Option.some.injEq] at h
          obtain ⟨a, ha, b, hb, rfl⟩ := h
          obtain rfl : c = 'n' := by
            simpa [hdrop] using List.head_dropWhile_not (· != 'n') (l := cs) (by simp [hdrop])
          rw [← List.takeWhile_append_dropWhile (p := (· != 'n')) (l := cs), hdrop]
          exact .linear (factor?_eq_some_iff.mp ha) (offset?_eq_some_iff.mp hb)
  · rintro (_ | _ | h | ⟨hfactor, hoffset⟩)
    · rfl
    · rfl
    · obtain ⟨htake, hdrop⟩ := takeWhile_of_isIntegerChar h.isIntegerChar
      obtain ⟨hodd, heven⟩ := ne_words (htake.symm ▸ h.isIntegerChar)
      rw [ofChars?, if_neg hodd, if_neg heven, hdrop, signed?_eq_some_iff.mpr h]
      rfl
    · rename_i ds _ _
      obtain ⟨htake, hdrop⟩ := cut_of_isIntegerChar hfactor.isIntegerChar ds
      obtain ⟨hodd, heven⟩ := ne_words (htake.symm ▸ hfactor.isIntegerChar)
      rw [ofChars?, if_neg hodd, if_neg heven, hdrop, htake, factor?_eq_some_iff.mpr hfactor]
      simp only [offset?_eq_some_iff.mpr hoffset]
      rfl

theorem parse?_eq_some_iff {text : String} :
    parse? text = some series ↔ Spelled (fold text.toList) series := ofChars?_eq_some_iff

/-! ## Between parentheses -/

theorem not_mem_of_spelled (h : Spelled (fold cs) series) : ')' ∉ cs := by
  have hlacks : ∀ {ds : List Char} {series : Nth}, Spelled ds series → ')' ∉ ds := by
    rintro ds series (_ | _ | h | ⟨hfactor, hoffset⟩) hmem
    · revert hmem
      decide
    · revert hmem
      decide
    · cases h.isIntegerChar ')' hmem
    · rcases List.mem_append.mp hmem with hmem | hmem
      · cases hfactor.isIntegerChar ')' hmem
      · have hoffset' := (List.mem_cons.mp hmem).resolve_left (by decide)
        cases hoffset with
        | nothing => cases hoffset'
        | signed _ h => cases h.isIntegerChar ')' hoffset'
  intro hmem
  exact hlacks h (List.mem_map.mpr ⟨')', List.mem_filter.mpr ⟨hmem, rfl⟩, rfl⟩)

theorem filter_dropWhile {p : Char → Bool} (cs : List Char) :
    (cs.dropWhile p).filter (!p ·) = cs.filter (!p ·) := by
  induction cs with
  | nil => rfl
  | cons c cs ih =>
      rw [List.dropWhile_cons]
      split
      · rename_i hc
        rw [ih, List.filter_cons_of_neg (by simp [hc])]
      · rfl

/-- The blanks around a text do not matter. -/
theorem fold_trim (cs : List Char) : fold (trim isBlank cs) = fold cs := by
  rw [fold, fold, trim, dropEnd, List.filter_reverse, filter_dropWhile, ← List.filter_reverse,
    List.reverse_reverse, filter_dropWhile]

/-! ## A text for every series -/

/-- The text of an integer, with its sign. -/
def signedText (i : Int) : List Char :=
  (if i < 0 then '-' else '+') :: Nat.toDigits 10 i.natAbs

theorem signed_signedText (h : inRange i = true) : Signed (signedText i) i := by
  have hdigits : Digits (Nat.toDigits 10 i.natAbs) i.natAbs :=
    ⟨Nat.toDigits_ne_nil, fun _ hc => Nat.isDigit_of_mem_toDigits (by decide) (by decide) hc,
      Nat.ofDigitChars_ten_toDigits⟩
  rw [signedText, ← List.singleton_append]
  split
  · exact .intro .minus hdigits (by omega) h
  · exact .intro .plus hdigits (by omega) h

theorem toLower_of_isDigit (h : c.isDigit = true) : c.toLower = c := by
  have hascii : ∀ code < 128, (Char.ofNat code).isDigit = true →
      (Char.ofNat code).toLower = Char.ofNat code := by decide +kernel
  exact @of_ascii (fun c => c.isDigit = true → c.toLower = c) hascii c (toNat_of_isDigit h) h

theorem fold_eq_self (h : ∀ c ∈ cs, c = 'n' ∨ isIntegerChar c = true) : fold cs = cs := by
  have hc : ∀ c ∈ cs, isBlank c = false ∧ c.toLower = c := by
    intro c hc
    rcases h c hc with rfl | h
    · decide
    · rw [isIntegerChar, Bool.or_eq_true, Bool.or_eq_true, beq_iff_eq, beq_iff_eq] at h
      rcases h with (rfl | rfl) | h
      · decide
      · decide
      · exact ⟨isBlank_of_isDigit h, toLower_of_isDigit h⟩
  rw [fold, List.filter_eq_self.mpr fun c hmem => by rw [(hc c hmem).1]; rfl]
  exact (List.map_congr_left fun c hmem => (hc c hmem).2).trans (List.map_id _)

/-- A text in which a series is written with both coefficients and their signs. -/
def text (series : Nth) : List Char := signedText series.a ++ 'n' :: signedText series.b

theorem spelled_text (ha : inRange series.a = true) (hb : inRange series.b = true) :
    Spelled (fold series.text) series := by
  have hfactor := signed_signedText ha
  have hoffset := signed_signedText hb
  have hfold : fold series.text = series.text := by
    refine fold_eq_self fun c hc => ?_
    rcases List.mem_append.mp hc with hc | hc
    · exact .inr (hfactor.isIntegerChar c hc)
    · exact (List.mem_cons.mp hc).imp_right (hoffset.isIntegerChar c)
  rw [hfold]
  refine .linear (.signed hfactor) (.signed ?_ hoffset)
  split
  · exact .inr rfl
  · exact .inl rfl

/-- A text is read as a series just when it spells it, but for blanks and the case of letters. The
series that some text is read as are those with coefficients of 32 bits. -/
theorem parse?_eq_some_iff_spelled :
    (∀ (text : String) (series : Nth),
      parse? text = some series ↔ Spelled (fold text.toList) series) ∧
    ∀ series : Nth, (∃ text, parse? text = some series) ↔
      inRange series.a = true ∧ inRange series.b = true := by
  refine ⟨fun _ _ => parse?_eq_some_iff, fun series => ⟨?_, fun ⟨ha, hb⟩ => ?_⟩⟩
  · rintro ⟨text, h⟩
    exact inRange_of_parse? h
  · refine ⟨String.ofList series.text, parse?_eq_some_iff.mpr ?_⟩
    rw [String.toList_ofList]
    exact spelled_text ha hb

end TreeQuery.Selector.Nth
