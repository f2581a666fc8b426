import TreeQuery.Function.Text
import TreeQuery.Proofs.Number.Whole
import TreeQuery.Proofs.Text.Bytes

/-!
What the functions on texts tell, in terms of lists of characters: the tests for a text at the start
of another or anywhere in it, and the part of a text from a position on.
-/
namespace TreeQuery.Function

open TreeQuery.Number (Whole)

variable {text sought : String}

theorem startsWithText_iff : startsWithText text sought = true ↔ sought.toList <+: text.toList :=
  List.isPrefixOf_iff_prefix

theorem containsText_iff : containsText text sought = true ↔ sought.toList <:+: text.toList := by
  rw [containsText, Text.isSome_offset?]
  constructor
  · rintro ⟨before, after, rfl⟩
    exact ⟨before.toList, after.toList, by rw [String.toList_append, String.toList_append]⟩
  · rintro ⟨before, after, heq⟩
    refine ⟨String.ofList before, String.ofList after, String.toList_inj.mp ?_⟩
    rw [String.toList_append, String.toList_append, String.toList_ofList, String.toList_ofList, heq]

/-! ## Parts of a text -/

/-- What stands at a place or behind it, when places count from the given one on. -/
theorem map_filter_zipIdx {α : Type} (l : List α) (start place : Nat) :
    ((l.zipIdx start).filter fun p => decide (place ≤ p.2)).map (·.1) =
      l.drop (place - start) := by
  induction l generalizing start with
  | nil => simp
  | cons x l ih =>
      rw [List.zipIdx_cons, List.filter_cons]
      by_cases h : place ≤ start
      · have hnow : place - start = 0 := by omega
        have hthen : place - (start + 1) = 0 := by omega
        simp [h, ih, hnow, hthen]
      · have hlater : place - start = place - (start + 1) + 1 := by omega
        simp [h, ih, hlater]

/-- From a whole position on, a text less so many characters in front of it. -/
theorem charsFrom_eq_drop {first : Number} {n : Nat} (h : Whole first (n + 1 : Nat))
    (hlength : text.length ≤ Nat.pow 2 53) :
    charsFrom text first (.infinite false) = String.ofList (text.toList.drop n) := by
  have hplaces : ∀ p ∈ text.toList.zipIdx 1,
      (first.le (.ofNat p.2) && (Number.ofNat p.2).lt (.infinite false)) =
        decide (n + 1 ≤ p.2) := by
    rintro ⟨c, i⟩ hp
    have hi : i ≤ Nat.pow 2 53 := by
      have hlt := List.snd_lt_of_mem_zipIdx hp
      rw [String.length_toList] at hlt
      omega
    have hwhole := Number.whole_ofNat hi
    rw [hwhole.lt_infinite, Bool.and_true, Bool.eq_iff_iff, h.le_iff hwhole, decide_eq_true_iff,
      Int.ofNat_le]
  rw [charsFrom, List.filter_congr hplaces, map_filter_zipIdx, Nat.add_sub_cancel]

theorem length_charsFrom_le (text : String) (first limit : Number) :
    (charsFrom text first limit).length ≤ text.length :=
  calc (charsFrom text first limit).length
      ≤ (text.toList.zipIdx 1).length := by
        rw [charsFrom, String.length_ofList, List.length_map]
        exact List.length_filter_le _ _
    _ = text.length := by rw [List.length_zipIdx, String.length_toList]

end TreeQuery.Function
