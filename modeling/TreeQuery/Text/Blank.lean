import TreeQuery.Text.Range

/-!
Three sets of blank characters, each used where its standard says so: the spaces of the universal
character set between tokens, the four blanks of XML around a number, and the five ASCII blanks
between the words of a text. `words_append_blank` says that words never run across a blank.
-/
namespace TreeQuery.Text

/-- A blank of the universal character set: what may stand between two tokens. -/
def isBlank (c : Char) : Bool :=
  if c.toNat < 128 then c == ' ' || (9 ≤ c.toNat && c.toNat ≤ 13)
  else
    inRanges [(0x85, 0x85), (0xA0, 0xA0), (0x1680, 0x1680), (0x2000, 0x200A), (0x2028, 0x2029),
      (0x202F, 0x202F), (0x205F, 0x205F), (0x3000, 0x3000)] c.toNat

/-- A blank of XML: space, tab, line feed or carriage return. -/
def isXmlBlank (c : Char) : Bool := c == ' ' || c == '\t' || c == '\n' || c == '\r'

/-- A blank between words: one of XML or a form feed. -/
def isWordBlank (c : Char) : Bool := isXmlBlank c || c == '\x0c'

/-- Drops the characters of a class at the end of a text. -/
def dropEnd (p : Char → Bool) (cs : List Char) : List Char := (cs.reverse.dropWhile p).reverse

/-- Drops the characters of a class at both ends of a text. -/
def trim (p : Char → Bool) (cs : List Char) : List Char := dropEnd p (cs.dropWhile p)

/-- The words of a text: its longest runs of characters other than blanks between words. -/
def words : List Char → List (List Char)
  | [] => []
  | c :: cs =>
    if isWordBlank c then words cs
    else
      match cs with
      | [] => [[c]]
      | d :: _ =>
        if isWordBlank d then [c] :: words cs
        else
          match words cs with
          | [] => [[c]]
          | w :: ws => (c :: w) :: ws

@[simp] theorem words_nil : words [] = [] := rfl

theorem words_cons_blank {c : Char} (h : isWordBlank c = true) (cs : List Char) :
    words (c :: cs) = words cs := by
  rw [words.eq_def]; simp [h]

/-- A text that starts with no blank has a word. -/
theorem words_cons_ne_nil {c : Char} (h : isWordBlank c = false) (cs : List Char) :
    words (c :: cs) ≠ [] := by
  rw [words.eq_def]
  simp only [h, Bool.false_eq_true, if_false]
  split
  · simp
  · split
    · simp
    · split <;> simp

/-- A blank stands between two words, whatever is on its two sides. -/
theorem words_append_blank {c : Char} (h : isWordBlank c = true) (cs ds : List Char) :
    words (cs ++ c :: ds) = words cs ++ words ds := by
  induction cs with
  | nil => simpa using words_cons_blank h ds
  | cons a as ih =>
    by_cases ha : isWordBlank a = true
    · simp only [List.cons_append, words_cons_blank ha, ih]
    · simp only [Bool.not_eq_true] at ha
      cases as with
      | nil => simp [words, ha, h]
      | cons b bs =>
        rw [List.cons_append, words.eq_def (a :: _), words.eq_def (a :: _)]
        simp only [ha, Bool.false_eq_true, if_false, List.cons_append]
        by_cases hb : isWordBlank b = true
        · simpa [hb] using ih
        · simp only [Bool.not_eq_true] at hb
          obtain ⟨w, ws, hw⟩ := List.exists_cons_of_ne_nil (words_cons_ne_nil hb bs)
          simp only [List.cons_append] at ih
          simp [hb, ih, hw]

end TreeQuery.Text
