import Mathlib.Data.List.Basic
import TreeQuery.Text.Search

/-!
Texts and their bytes. Where the bytes of a text stand among those of another one, they begin and
end between two characters of the other, unless the text is empty: no character's bytes begin
inside another's. So the search on bytes finds the first place where the text itself stands, and
cuts at such a place are cuts between characters.
-/
namespace TreeQuery

/-! ## Parts of a text -/

theorem slice?_append (before text after : String) :
    slice? (before ++ text ++ after) before.utf8ByteSize
      (before.utf8ByteSize + text.utf8ByteSize) = some text := by
  have hstart : String.Pos.Raw.IsValid (before ++ text ++ after) ⟨before.utf8ByteSize⟩ :=
    (String.Pos.Raw.isValid_rawEndPos.append_right text).append_right after
  have hstop : String.Pos.Raw.IsValid (before ++ text ++ after)
      ⟨before.utf8ByteSize + text.utf8ByteSize⟩ := by
    rw [← String.utf8ByteSize_append]
    exact String.Pos.Raw.isValid_rawEndPos.append_right after
  rw [slice?, dif_pos ⟨Nat.le_add_right _ _, hstart, hstop⟩]
  refine congrArg some (String.toByteArray_inj.mp ?_)
  rw [String.toByteArray_extract]
  calc (before ++ text ++ after).toByteArray.extract before.utf8ByteSize
        (before.utf8ByteSize + text.utf8ByteSize)
      = (before.toByteArray ++ (text.toByteArray ++ after.toByteArray)).extract
          (before.toByteArray.size + 0) (before.toByteArray.size + text.toByteArray.size) := by
        rw [String.append_assoc, String.toByteArray_append, String.toByteArray_append]
        rfl
    _ = (text.toByteArray ++ after.toByteArray).extract 0 text.toByteArray.size :=
        ByteArray.extract_append_size_add
    _ = text.toByteArray := ByteArray.extract_append_eq_left rfl

theorem slice?_before (before after : String) :
    slice? (before ++ after) 0 before.utf8ByteSize = some before := by
  have h := slice?_append "" before after
  rwa [String.empty_append, String.utf8ByteSize_empty, Nat.zero_add] at h

theorem slice?_after (before after : String) :
    slice? (before ++ after) before.utf8ByteSize (before ++ after).utf8ByteSize = some after := by
  have h := slice?_append before after ""
  rwa [String.append_empty, ← String.utf8ByteSize_append] at h

section
variable {text more : String} {start stop : Nat} (h : stop ≤ text.utf8ByteSize)
include h

theorem extract_append_left :
    (text ++ more).toByteArray.extract start stop = text.toByteArray.extract start stop := by
  have hsize : text.toByteArray.size = text.utf8ByteSize := rfl
  have hnone : more.toByteArray.extract (start - text.utf8ByteSize) 0 = .empty := by simp
  rw [String.toByteArray_append, ByteArray.extract_append, hsize, Nat.sub_eq_zero_of_le h, hnone,
    ByteArray.append_empty]

theorem isValid_append_left :
    String.Pos.Raw.IsValid (text ++ more) ⟨stop⟩ ↔ String.Pos.Raw.IsValid text ⟨stop⟩ := by
  rw [String.Pos.Raw.isValid_iff_isValidUTF8_extract_zero,
    String.Pos.Raw.isValid_iff_isValidUTF8_extract_zero, extract_append_left h]
  exact and_congr_left fun _ => iff_of_true (Nat.le_trans h (by simp)) h

/-- More text behind does not change what stands in front of it. -/
theorem slice?_append_left : slice? (text ++ more) start stop = slice? text start stop := by
  by_cases hle : start ≤ stop
  · have hstart := @isValid_append_left text more start (Nat.le_trans hle h)
    have hstop := @isValid_append_left text more stop h
    by_cases hcut : String.Pos.Raw.IsValid text ⟨start⟩ ∧ String.Pos.Raw.IsValid text ⟨stop⟩
    · rw [slice?, slice?, dif_pos ⟨hle, hstart.mpr hcut.1, hstop.mpr hcut.2⟩, dif_pos ⟨hle, hcut⟩]
      refine congrArg some (String.toByteArray_inj.mp ?_)
      rw [String.toByteArray_extract, String.toByteArray_extract]
      exact extract_append_left h
    · rw [slice?, slice?, dif_neg fun hall => hcut ⟨hstart.mp hall.2.1, hstop.mp hall.2.2⟩,
        dif_neg fun hall => hcut hall.2]
  · rw [slice?, slice?, dif_neg fun hall => hle hall.1, dif_neg fun hall => hle hall.1]

end

namespace Text

/-! ## Rows of bytes -/

section
variable {sought text : List UInt8} {place found : Nat}

theorem isSome_placeFrom : (placeFrom sought place text).isSome = true ↔ sought <:+: text := by
  induction text generalizing place with
  | nil =>
      rw [placeFrom, List.infix_nil]
      split
      · exact iff_of_true rfl ‹_›
      · exact iff_of_false (by simp) ‹_›
  | cons b bs ih =>
      rw [placeFrom, List.infix_cons_iff, ← List.isPrefixOf_iff_prefix]
      split
      · exact iff_of_true rfl (.inl ‹_›)
      · rw [ih, or_iff_right ‹_›]

/-- What is found is a place of the sought bytes, and they have none before it. -/
theorem of_placeFrom_eq_some (h : placeFrom sought place text = some found) :
    (∃ before after, text = before ++ sought ++ after ∧ found = place + before.length) ∧
      ∀ before after, text = before ++ sought ++ after → found ≤ place + before.length := by
  induction text generalizing place with
  | nil =>
      rw [placeFrom, Option.ite_none_right_eq_some, Option.some.injEq] at h
      obtain ⟨rfl, rfl⟩ := h
      exact ⟨⟨[], [], rfl, rfl⟩, fun before _ _ => Nat.le_add_right _ _⟩
  | cons b bs ih =>
      rw [placeFrom] at h
      split at h
      · rename_i hprefix
        obtain rfl := Option.some.inj h
        obtain ⟨after, hafter⟩ := List.isPrefixOf_iff_prefix.mp hprefix
        exact ⟨⟨[], after, hafter.symm, rfl⟩, fun before _ _ => Nat.le_add_right _ _⟩
      · rename_i hprefix
        obtain ⟨⟨before, after, heq, hfound⟩, hfirst⟩ := ih h
        refine ⟨⟨b :: before, after, by rw [heq]; rfl, ?_⟩, fun before' after' heq' => ?_⟩
        · rw [hfound, List.length_cons]
          omega
        · cases before' with
          | nil => exact absurd (List.isPrefixOf_iff_prefix.mpr ⟨after', heq'.symm⟩) hprefix
          | cons b' before' =>
              have hle := hfirst before' after' (List.cons.inj heq').2
              rw [List.length_cons]
              omega

end

/-! ## Bytes of texts -/

section
variable {sought text before after : String}

theorem bytes_append (s t : String) : bytes (s ++ t) = bytes s ++ bytes t := by
  rw [bytes, String.toByteArray_append, ByteArray.data_append, Array.toList_append]
  rfl

theorem length_bytes (s : String) : (bytes s).length = s.utf8ByteSize := rfl

theorem bytes_inj {s t : String} : bytes s = bytes t ↔ s = t := by
  refine ⟨fun h => String.toByteArray_inj.mp ?_, congrArg bytes⟩
  exact ByteArray.ext (Array.toList_inj.mp h)

theorem toByteArray_bytes (s : String) : (bytes s).toByteArray = s.toByteArray :=
  ByteArray.ext (Array.toList_inj.mp List.toList_data_toByteArray)

/-- Bytes that a text has between others are a part of the other text, cut between characters. -/
theorem exists_of_bytes_eq {front back : List UInt8} (hne : sought ≠ "")
    (h : bytes text = front ++ bytes sought ++ back) :
    ∃ before after, text = before ++ sought ++ after ∧ bytes before = front ∧
      bytes after = back := by
  have hpos : 0 < sought.utf8ByteSize :=
    Nat.pos_of_ne_zero fun hzero => hne (String.utf8ByteSize_eq_zero_iff.mp hzero)
  have hsize : front.length + sought.utf8ByteSize + back.length = text.utf8ByteSize := by
    rw [← length_bytes text, h, List.length_append, List.length_append, length_bytes]
  have hpart : text.toByteArray.extract front.length (front.length + sought.utf8ByteSize) =
      sought.toByteArray := by
    rw [← toByteArray_bytes text, h]
    refine ByteArray.ext (Array.toList_inj.mp ?_)
    simpa [bytes] using List.take_of_length_le (Nat.le_of_eq (length_bytes sought))
  -- The part is a text, so its two ends are places between characters.
  obtain ⟨hstart, hstop⟩ := ((String.Pos.Raw.isValidUTF8_extract_iff ⟨front.length⟩
    ⟨front.length + sought.utf8ByteSize⟩ (by simp [String.Pos.Raw.le_iff])
    (by simp [String.Pos.Raw.le_iff]; omega)).mp (hpart ▸ sought.isValidUTF8)).resolve_left
      (by simp; omega)
  obtain ⟨before, rest, hbefore, hfront⟩ := String.Pos.Raw.isValid_iff_exists_append.mp hstart
  obtain ⟨rest', after, hafter, hback⟩ := String.Pos.Raw.isValid_iff_exists_append.mp hstop
  have heqBefore : bytes before = front := by
    rw [hbefore, bytes_append, List.append_assoc] at h
    exact (List.append_inj h (congrArg String.Pos.Raw.byteIdx hfront).symm).1
  have heqAfter : bytes after = back := by
    rw [hafter, bytes_append] at h
    refine (List.append_inj h ?_).2
    rw [List.length_append, length_bytes, length_bytes]
    exact (congrArg String.Pos.Raw.byteIdx hback).symm
  refine ⟨before, after, bytes_inj.mp ?_, heqBefore, heqAfter⟩
  rw [h, bytes_append, bytes_append, heqBefore, heqAfter]

/-! ## Search -/

theorem offset?_empty (text : String) : offset? "" text = some 0 := by
  rw [offset?]
  cases bytes text <;> rfl

theorem isSome_offset? :
    (offset? sought text).isSome = true ↔ ∃ before after, text = before ++ sought ++ after := by
  rw [offset?, isSome_placeFrom]
  constructor
  · rintro ⟨front, back, heq⟩
    rcases eq_or_ne sought "" with rfl | hne
    · exact ⟨"", text, by simp⟩
    · obtain ⟨before, after, htext, _⟩ := exists_of_bytes_eq hne heq.symm
      exact ⟨before, after, htext⟩
  · rintro ⟨before, after, rfl⟩
    exact ⟨bytes before, bytes after, by rw [bytes_append, bytes_append]⟩

/-- The search gives the first place where the text itself stands. -/
theorem of_offset?_eq_some {offset : Nat} (h : offset? sought text = some offset) :
    (∃ before after, text = before ++ sought ++ after ∧ offset = before.utf8ByteSize) ∧
      ∀ before after, text = before ++ sought ++ after → offset ≤ before.utf8ByteSize := by
  rcases eq_or_ne sought "" with rfl | hne
  · rw [offset?_empty, Option.some.injEq] at h
    subst h
    exact ⟨⟨"", text, by simp, rfl⟩, fun _ _ _ => Nat.zero_le _⟩
  · obtain ⟨⟨front, back, heq, hoffset⟩, hfirst⟩ := of_placeFrom_eq_some h
    rw [Nat.zero_add] at hoffset
    constructor
    · obtain ⟨before, after, htext, hbefore, _⟩ := exists_of_bytes_eq hne heq
      exact ⟨before, after, htext, by rw [hoffset, ← hbefore, length_bytes]⟩
    · rintro before after rfl
      have hle := hfirst (bytes before) (bytes after) (by rw [bytes_append, bytes_append])
      rwa [Nat.zero_add, length_bytes] at hle

end

end Text

end TreeQuery
