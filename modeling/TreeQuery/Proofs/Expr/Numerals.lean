import Mathlib.Data.List.TakeWhile
import TreeQuery.Proofs.Expr.Ranges

/-!
Numbers in data and in expressions. The two are read by different functions; they take the same
texts for numbers, with the same values, but for the minus sign that data may have in front.
-/
namespace TreeQuery

open TreeQuery.Text

namespace Number

theorem ofDigits_ne_nan (whole fraction : List Char) : ofDigits whole fraction ≠ .nan := by
  rw [ofDigits, ofDecimal, ofRatio]
  split <;> intro h <;> cases h

theorem neg_ne_nan {value : Number} (h : value ≠ .nan) : value.neg ≠ .nan := by
  cases value with
  | nan => exact absurd rfl h
  | infinite => nofun
  | finite => nofun

end Number

namespace Expr

/-! ## Digits and a point -/

section
variable {whole fraction : List Char} (hwhole : ∀ c ∈ whole, c.isDigit = true)
include hwhole

theorem ofUnsigned?_whole (hne : whole ≠ []) :
    Number.ofUnsigned? whole = some (.ofDigits whole []) := by
  have htake : whole.takeWhile Char.isDigit = whole := List.takeWhile_eq_self_iff.mpr hwhole
  rw [Number.ofUnsigned?, ← Tokens.drop_takeWhile, htake, List.drop_length]
  simp [hne]

theorem ofUnsigned?_decimal (hfraction : ∀ c ∈ fraction, c.isDigit = true)
    (hne : ¬(whole = [] ∧ fraction = [])) :
    Number.ofUnsigned? (whole ++ '.' :: fraction) = some (.ofDigits whole fraction) := by
  have htake := takeWhile_append hwhole (stops_cons rfl : Stops Char.isDigit ('.' :: fraction))
  have hall : fraction.all Char.isDigit = true := List.all_eq_true.mpr hfraction
  rw [Number.ofUnsigned?, ← Tokens.drop_takeWhile, htake, List.drop_left]
  simp [hall, hne]

end

section
variable {cs : List Char} {value : Number}

theorem stands_of_ofUnsigned? (h : Number.ofUnsigned? cs = some value) :
    Stands false cs [] (.number value) := by
  have hwhole : ∀ c ∈ cs.takeWhile Char.isDigit, c.isDigit = true :=
    List.all_eq_true.mp List.all_takeWhile
  have hsplit := List.takeWhile_append_dropWhile (p := Char.isDigit) (l := cs)
  have hend (p : Char → Bool) : Stops p [] := nofun
  unfold Number.ofUnsigned? at h
  generalize cs.takeWhile Char.isDigit = whole at *
  split at h
  · rename_i hnil
    rw [hnil, List.append_nil] at hsplit
    subst hsplit
    by_cases hne : whole = []
    · simp [hne] at h
    · obtain rfl : Number.ofDigits whole [] = value := by simpa [hne] using h
      exact .whole hne hwhole (hend _) rfl
  · rename_i fraction hpoint
    rw [hpoint] at hsplit
    subst hsplit
    obtain ⟨⟨hfraction, hne⟩, rfl⟩ : ((∀ c ∈ fraction, c.isDigit = true) ∧
        (whole ≠ [] ∨ fraction ≠ [])) ∧ Number.ofDigits whole fraction = value := by simpa using h
    exact .decimal hne hwhole hfraction (hend _) fun _ => hend _
  · cases h

/-- What data reads as a number without a sign is one token, and the other way round. -/
theorem ofUnsigned?_eq_some_iff :
    Number.ofUnsigned? cs = some value ↔ Stands false cs [] (.number value) := by
  refine ⟨stands_of_ofUnsigned?, fun h => ?_⟩
  obtain ⟨whole, fraction, hcs, hdigits, hvalue⟩ := h.spelledBy
  rw [hvalue]
  obtain ⟨hwhole, hfraction⟩ := List.forall_mem_append.mp hdigits
  rcases hcs with rfl | ⟨rfl, rfl⟩
  · refine ofUnsigned?_decimal hwhole hfraction ?_
    rintro ⟨rfl, rfl⟩
    -- a point alone is a token, but not a number
    obtain ⟨c, more, heq, _, hlexeme⟩ := h.cuts
    cases heq
    have hpoint : lexeme false '.' [] = .ok (.dot, 1) := rfl
    cases hpoint.symm.trans hlexeme
  · exact ofUnsigned?_whole hwhole (List.ne_nil_of_length_pos h.cuts.length_pos)

theorem Stands.ne_nan {operatorAllowed : Bool} {text rest : List Char}
    (h : Stands operatorAllowed text rest (.number value)) : value ≠ .nan := by
  obtain ⟨whole, fraction, _, _, hvalue⟩ := h.spelledBy
  exact hvalue ▸ Number.ofDigits_ne_nan whole fraction

end

/-! ## Whole texts -/

/-- All characters of a text are read as one token. -/
structure ReadsAs (cs : List Char) (kind : TokenKind) : Prop where
  tokens : (Tokens.ofText (String.ofList cs)).toList = .ok [⟨kind, .start⟩]
  covered : Covered cs cs.length [⟨kind, .start⟩] [⟨0, cs.length⟩]

theorem readsAs_iff_stands {cs : List Char} {kind : TokenKind} :
    ReadsAs cs kind ↔ Stands false cs [] kind := by
  have hof : Range.of ⟨0, cs.length⟩ cs = cs := List.take_length
  constructor
  · intro h
    have hcuts := (h.covered.read 0 _ _ rfl rfl).cuts
    rw [hof, List.drop_length] at hcuts
    exact cuts_iff_stands.mp hcuts
  · intro h
    have hpos := h.cuts.length_pos
    refine ⟨?_, Covers.covered (.cons (Nat.le_refl 0) ?_ hpos ?_ ?_ (.nil (Nat.le_refl _) ?_))⟩
    · obtain ⟨rounds, hrounds⟩ := Nat.exists_eq_add_one_of_ne_zero (Nat.ne_of_gt hpos)
      have hscan := @Tokens.scan_of_cuts false .start cs [] kind h.cuts rounds
      rw [List.append_nil, Tokens.scan_nil] at hscan
      rw [Tokens.ofText, String.toList_ofList, hrounds, hscan]
      rfl
    · simp [Range.of]
    · rw [hof, List.drop_length]
      exact h.cuts
    · exact (placeAt_zero cs).symm
    · simp [Range.of]

section
variable {cs : List Char} {value : Number}

theorem readsAs_number_iff : ReadsAs cs (.number value) ↔ Number.ofUnsigned? cs = some value :=
  readsAs_iff_stands.trans ofUnsigned?_eq_some_iff.symm

/-- A function of the value that some texts have as numbers, and that is no number for the rest. -/
theorem elim_ne_nan_iff {f : Number → Number} (hf : ∀ value ≠ .nan, f value ≠ .nan) :
    (Number.ofUnsigned? cs).elim .nan f ≠ .nan ↔ ∃ value, ReadsAs cs (.number value) := by
  simp only [readsAs_number_iff]
  cases hread : Number.ofUnsigned? cs with
  | none => simp
  | some value => simpa using hf value (ofUnsigned?_eq_some_iff.mp hread).ne_nan

end

theorem read_eq_elim {text : String} {trimmed : List Char}
    (h : trim isXmlBlank text.toList = trimmed) :
    Number.read text =
      (Number.ofUnsigned? (if trimmed.head? == some '-' then trimmed.tail else trimmed)).elim .nan
        fun value => if trimmed.head? == some '-' then value.neg else value := by
  rw [Number.read, h]
  split
  · rfl
  · rename_i hminus
    have hhead : (trimmed.head? == some '-') = false := by
      rw [beq_eq_false_iff_ne]
      intro hhead
      obtain ⟨tail, htail⟩ := List.head?_eq_some_iff.mp hhead
      exact hminus tail htail
    simp only [hhead, Bool.false_eq_true, if_false]
    cases Number.ofUnsigned? trimmed <;> rfl

/-- Data is read as a number exactly when all of it, without the blanks around it and one minus
sign in front, is one token of an expression that is a number. It has the token's value, or the
negative one. -/
theorem read_numeral (text : String) :
    let trimmed := trim isXmlBlank text.toList
    let negative := trimmed.head? == some '-'
    let cs := if negative then trimmed.tail else trimmed
    (Number.read text ≠ .nan ↔ ∃ value, ReadsAs cs (.number value)) ∧
      ∀ value, ReadsAs cs (.number value) →
        Number.read text = if negative then value.neg else value := by
  intro trimmed negative cs
  have hread : Number.read text = (Number.ofUnsigned? cs).elim .nan fun value =>
      if negative then value.neg else value := read_eq_elim rfl
  refine ⟨?_, fun value hvalue => ?_⟩
  · rw [hread]
    refine elim_ne_nan_iff fun value hne => ?_
    split
    · exact Number.neg_ne_nan hne
    · exact hne
  · rw [hread, readsAs_number_iff.mp hvalue]
    rfl

theorem read_numeral_minus :
    ReadsAs ['2', '.'] (.number (.ofDigits ['2'] [])) ∧
      Number.read " -2.\n" = (Number.ofDigits ['2'] []).neg := by
  have hreads : ReadsAs ['2', '.'] (.number (.ofDigits ['2'] [])) := by
    have hdigits : ∀ c ∈ ['2'], c.isDigit = true := List.forall_mem_singleton.mpr rfl
    exact readsAs_number_iff.mpr (ofUnsigned?_decimal hdigits (List.forall_mem_nil _) (by decide))
  exact ⟨hreads, ((read_numeral " -2.\n").2 _ hreads).trans (if_pos rfl)⟩

end Expr

end TreeQuery
