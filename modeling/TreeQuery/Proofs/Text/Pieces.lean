import Mathlib.Data.List.Basic
import TreeQuery.Text.Blank

/-!
Texts inside texts. With a separator on both sides of each, a text is held just when its pieces
between separators stand side by side among the pieces of the other; and the words of a text are its
pieces between blanks that are not empty.
-/
namespace TreeQuery.Text

/-! ## Pieces between separators -/

section
variable {α : Type} [BEq α] [LawfulBEq α] {sep : α} {l m : List α}

omit [BEq α] [LawfulBEq α] in
theorem intercalate_append {pieces more : List (List α)} (h : pieces ≠ []) (hmore : more ≠ []) :
    [sep].intercalate (pieces ++ more) =
      [sep].intercalate pieces ++ sep :: [sep].intercalate more := by
  induction pieces with
  | nil => exact absurd rfl h
  | cons piece pieces ih =>
      rw [List.cons_append]
      rcases eq_or_ne pieces [] with rfl | hne
      · rw [List.nil_append, List.intercalate_cons_of_ne_nil hmore, List.intercalate_singleton,
          List.append_assoc, List.singleton_append]
      · rw [List.intercalate_cons_of_ne_nil (List.append_ne_nil_of_left_ne_nil hne _), ih hne,
          List.intercalate_cons_of_ne_nil hne]
        simp only [List.append_assoc]

theorem splitOn_padded (l : List α) :
    (sep :: l ++ [sep]).splitOn sep = [] :: l.splitOn sep ++ [[]] := by
  rw [List.cons_append, ← List.nil_append (sep :: (l ++ [sep])), List.splitOn_append_cons_self,
    List.splitOn_append_cons_self, List.splitOn_nil]
  rfl

/-- Between separators, a list is held by another just when its pieces stand side by side among the
pieces of the other. -/
theorem padded_infix_iff :
    (sep :: l ++ [sep]) <:+: (sep :: m ++ [sep]) ↔ l.splitOn sep <:+: m.splitOn sep := by
  constructor
  · rintro ⟨before, after, heq⟩
    have hpieces : before.splitOn sep ++ (l.splitOn sep ++ after.splitOn sep) =
        [] :: m.splitOn sep ++ [[]] := by
      rw [← splitOn_padded, ← heq, ← List.splitOn_append_cons_self, ← List.splitOn_append_cons_self]
      simp only [List.cons_append, List.append_assoc, List.nil_append]
    -- The outermost pieces on both sides are the empty ones beyond the separators.
    obtain ⟨first, left, hleft⟩ := List.exists_cons_of_ne_nil (List.splitOn_ne_nil sep before)
    obtain ⟨right, last, hright⟩ :=
      (List.eq_nil_or_concat' (after.splitOn sep)).resolve_left (List.splitOn_ne_nil sep after)
    rw [hleft, hright] at hpieces
    simp only [List.cons_append, List.cons.injEq] at hpieces
    have hinner : left ++ l.splitOn sep ++ right ++ [last] = m.splitOn sep ++ [[]] := by
      simpa only [List.append_assoc] using hpieces.2
    exact ⟨left, right, (List.append_inj' hinner rfl).1⟩
  · rintro ⟨left, right, heq⟩
    have hright : right ++ [[]] ≠ [] := List.append_ne_nil_of_right_ne_nil _ (List.cons_ne_nil _ _)
    have hinner : l.splitOn sep ++ (right ++ [[]]) ≠ [] :=
      List.append_ne_nil_of_right_ne_nil _ hright
    refine ⟨[sep].intercalate ([] :: left), [sep].intercalate (right ++ [[]]), ?_⟩
    calc [sep].intercalate ([] :: left) ++ (sep :: l ++ [sep]) ++ [sep].intercalate (right ++ [[]])
        = [sep].intercalate ([] :: left ++ (l.splitOn sep ++ (right ++ [[]]))) := by
          rw [intercalate_append (List.cons_ne_nil _ _) hinner,
            intercalate_append (List.splitOn_ne_nil _ _) hright, List.intercalate_splitOn]
          simp only [List.cons_append, List.append_assoc, List.nil_append]
      _ = [sep].intercalate ((sep :: m ++ [sep]).splitOn sep) := by
          rw [splitOn_padded, ← heq]
          simp only [List.cons_append, List.append_assoc]
      _ = sep :: m ++ [sep] := List.intercalate_splitOn sep

end

section
variable {α : Type} {p q : α → Bool} {l : List α}

theorem splitOnP_congr (h : ∀ x ∈ l, p x = q x) : l.splitOnP p = l.splitOnP q := by
  induction l with
  | nil => rfl
  | cons x l ih =>
      obtain ⟨hx, hrest⟩ := List.forall_mem_cons.mp h
      rw [List.splitOnP_cons_eq_if_modifyHead, List.splitOnP_cons_eq_if_modifyHead, hx, ih hrest]

end

/-! ## Words -/

/-- A word: it is not empty and has no blank. -/
def IsWord (cs : List Char) : Prop := cs ≠ [] ∧ ∀ c ∈ cs, isWordBlank c = false

instance (cs : List Char) : Decidable (IsWord cs) := inferInstanceAs (Decidable (_ ∧ _))

section
variable {sep : Char} {word cs ds : List Char}

theorem words_eq_filter_splitOnP (cs : List Char) :
    words cs = (cs.splitOnP isWordBlank).filter (· ≠ []) := by
  fun_induction words cs with
  | case1 => rfl
  | case2 c cs h ih => simp [List.splitOnP_cons_eq_if_modifyHead, h, ih]
  | case3 c h => simp [List.splitOnP_cons_eq_if_modifyHead, h]
  | case4 c h d cs hd ih => simp [ih, List.splitOnP_cons_eq_if_modifyHead, h, hd]
  | case5 c h d cs hd hnone ih =>
      exact absurd hnone (words_cons_ne_nil (Bool.eq_false_iff.mpr hd) cs)
  | case6 c h d cs hd word rest hsome ih =>
      obtain ⟨piece, pieces, hpieces⟩ :=
        List.exists_cons_of_ne_nil (List.splitOnP_ne_nil isWordBlank cs)
      have hfrom : (d :: cs).splitOnP isWordBlank = (d :: piece) :: pieces := by
        simp [List.splitOnP_cons_eq_if_modifyHead, hd, hpieces]
      rw [List.splitOnP_cons_eq_if_modifyHead, if_neg h, ih, hfrom]
      simp

/-- The words of a text are its pieces between blanks that are not empty. -/
theorem mem_words_iff : word ∈ words cs ↔ word ∈ cs.splitOnP isWordBlank ∧ word ≠ [] := by
  rw [words_eq_filter_splitOnP, List.mem_filter, decide_eq_true_iff]

theorem words_of_isWord (h : IsWord word) : words word = [word] := by
  rw [words_eq_filter_splitOnP, List.splitOnP_eq_singleton h.2]
  simp [h.1]

/-- Where a text stands between blanks in another, its words are words of the other, side by
side. -/
theorem words_infix_of_padded (hsep : isWordBlank sep = true)
    (h : (sep :: cs ++ [sep]) <:+: (sep :: ds ++ [sep])) : words cs <:+: words ds := by
  have hpadded : words (sep :: ds ++ [sep]) = words ds := by
    rw [List.cons_append, words_cons_blank hsep, words_append_blank hsep, words_nil,
      List.append_nil]
  obtain ⟨before, after, heq⟩ := h
  refine ⟨words before, words after, ?_⟩
  rw [← hpadded, ← heq]
  simp only [List.cons_append, List.append_assoc, List.nil_append, words_append_blank hsep]

/-- The words of texts with a blank between two of them are the words of all texts: none is lost, and
none run together. -/
theorem words_intercalate (hsep : isWordBlank sep = true) (texts : List (List Char)) :
    words ([sep].intercalate texts) = texts.flatMap words := by
  induction texts with
  | nil => rfl
  | cons text texts ih =>
      rcases eq_or_ne texts [] with rfl | hne
      · rw [List.intercalate_singleton, List.flatMap_singleton]
      · rw [List.intercalate_cons_of_ne_nil hne, List.append_assoc, List.singleton_append,
          words_append_blank hsep, ih, List.flatMap_cons]

/-- Where one blank is the only one, the words are the pieces around it that are not empty. -/
theorem mem_words_iff_mem_splitOn (hsep : isWordBlank sep = true)
    (honly : ∀ c ∈ cs, isWordBlank c = true → c = sep) :
    word ∈ words cs ↔ word ∈ cs.splitOn sep ∧ word ≠ [] := by
  have hpieces : cs.splitOnP isWordBlank = cs.splitOn sep := by
    rw [List.splitOn_eq_splitOnP]
    refine splitOnP_congr fun c hc => ?_
    rw [Bool.eq_iff_iff, beq_iff_eq]
    exact ⟨honly c hc, fun heq => heq ▸ hsep⟩
  rw [mem_words_iff, hpieces]

end

end TreeQuery.Text
