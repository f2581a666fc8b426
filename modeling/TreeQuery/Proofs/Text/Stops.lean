import TreeQuery.Text.Blank
import TreeQuery.Text.Letter

/-!
Runs of characters of a class, in front of something that is not of the class, and facts about the
characters of ASCII.
-/
namespace TreeQuery.Text

/-- No character of a class is in front. -/
def Stops (p : Char → Bool) (rest : List Char) : Prop := ∀ c ∈ rest.head?, p c = false

theorem stops_cons {p : Char → Bool} {c : Char} {rest : List Char} (hc : p c = false) :
    Stops p (c :: rest) := by
  simpa [Stops] using hc

theorem takeWhile_append {p : Char → Bool} {cs rest : List Char} (hcs : ∀ c ∈ cs, p c = true)
    (hrest : Stops p rest) : (cs ++ rest).takeWhile p = cs := by
  rw [List.takeWhile_append_of_pos hcs]
  cases rest with
  | nil => rw [List.takeWhile_nil, List.append_nil]
  | cons c rest => rw [List.takeWhile_cons_of_neg (by simp [hrest c rfl]), List.append_nil]

/-! ## ASCII -/

theorem of_ascii {P : Char → Prop} (h : ∀ code < 128, P (Char.ofNat code)) {c : Char}
    (hc : c.toNat < 128) : P c :=
  Char.ofNat_toNat c ▸ h c.toNat hc

/-- A character at or below one of ASCII is one of ASCII. -/
theorem toNat_lt_of_le {c d : Char} (h : c.val ≤ d.val) (hd : d.toNat < 128) : c.toNat < 128 :=
  Nat.lt_of_le_of_lt (UInt32.le_iff_toNat_le.1 h) hd

theorem toNat_of_isDigit {c : Char} (h : c.isDigit = true) : c.toNat < 128 :=
  @toNat_lt_of_le c '9' (of_decide_eq_true (Bool.and_eq_true_iff.mp h).2) (by decide)

theorem isBlank_of_isDigit {c : Char} (h : c.isDigit = true) : isBlank c = false := by
  have hascii : ∀ code < 128, (Char.ofNat code).isDigit = true →
      isBlank (Char.ofNat code) = false := by decide +kernel
  exact @of_ascii (fun c => c.isDigit = true → isBlank c = false) hascii c (toNat_of_isDigit h) h

end TreeQuery.Text
