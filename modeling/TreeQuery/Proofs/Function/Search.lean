import TreeQuery.Function.Call
import TreeQuery.Proofs.Function.Text

/-!
The functions that look for a text in another one. They agree on the first place where it stands,
and what they cut out in front of that place and behind it makes up the whole again.
-/
namespace TreeQuery.Function

open TreeQuery.Text (offset?)

variable {text sought before after : String} {offset : Nat}

/-! ## The first place -/

/-- A text stands in another between these two, and there is no shorter one that it stands
behind. -/
structure FirstPlace (text sought before after : String) : Prop where
  eq_append : text = before ++ sought ++ after
  le_length : ∀ u w, text = u ++ sought ++ w → before.length ≤ u.length

/-- Of two texts at the start of a third, the one with no more bytes has no more characters. -/
theorem length_le_of_utf8ByteSize_le {u w : String} (h : before ++ after = u ++ w)
    (hle : before.utf8ByteSize ≤ u.utf8ByteSize) : before.length ≤ u.length := by
  have hchars := congrArg String.toList h
  rw [String.toList_append, String.toList_append] at hchars
  rw [← String.length_toList, ← String.length_toList]
  rcases List.append_eq_append_iff.mp hchars with ⟨more, hu, _⟩ | ⟨more, hbefore, _⟩
  · rw [hu, List.length_append]
    omega
  · have heq : before = u ++ String.ofList more := by
      rw [← String.toList_inj, String.toList_append, String.toList_ofList, hbefore]
    have hmore : (String.ofList more).utf8ByteSize = 0 := by
      rw [heq, String.utf8ByteSize_append] at hle
      omega
    rw [String.utf8ByteSize_eq_zero_iff, ← String.toList_eq_nil_iff, String.toList_ofList] at hmore
    exact Nat.le_of_eq (by rw [hbefore, hmore, List.append_nil])

theorem firstPlace_of_offset? (h : offset? sought text = some offset) :
    ∃ before after, FirstPlace text sought before after ∧ offset = before.utf8ByteSize := by
  obtain ⟨⟨before, after, heq, hoffset⟩, hfirst⟩ := Text.of_offset?_eq_some h
  refine ⟨before, after, ⟨heq, fun u w heq' => ?_⟩, hoffset⟩
  have hwhole : before ++ (sought ++ after) = u ++ (sought ++ w) := by
    rw [← String.append_assoc, ← String.append_assoc, ← heq, ← heq']
  exact length_le_of_utf8ByteSize_le hwhole (hoffset ▸ hfirst u w heq')

/-! ## Cuts -/

/-- Cuts around a text are between characters. -/
theorem cuts_of_eq_append (h : text = before ++ sought ++ after) :
    let start := before.utf8ByteSize
    let stop := before.utf8ByteSize + sought.utf8ByteSize
    String.Pos.Raw.IsValid text ⟨start⟩ ∧ String.Pos.Raw.IsValid text ⟨stop⟩ ∧
      slice? text 0 start = some before ∧ slice? text stop text.utf8ByteSize = some after := by
  intro start stop
  have hstop : stop = (before ++ sought).utf8ByteSize := String.utf8ByteSize_append.symm
  refine ⟨?_, ?_, ?_, ?_⟩
  · rw [h, String.append_assoc]
    exact String.Pos.Raw.isValid_rawEndPos.append_right _
  · rw [h, hstop]
    exact String.Pos.Raw.isValid_rawEndPos.append_right _
  · rw [h, String.append_assoc]
    exact slice?_before before (sought ++ after)
  · rw [h, hstop]
    exact slice?_after (before ++ sought) after

theorem firstPlace_textBefore (h : offset? sought text = some offset) :
    FirstPlace text sought (textBefore text sought) (textAfter text sought) ∧
      offset = (textBefore text sought).utf8ByteSize := by
  obtain ⟨before, after, hplace, rfl⟩ := firstPlace_of_offset? h
  obtain ⟨_, _, hbefore, hafter⟩ := cuts_of_eq_append hplace.eq_append
  have heqBefore : textBefore text sought = before := by
    simp only [textBefore, h, hbefore, Option.getD_some]
  have heqAfter : textAfter text sought = after := by
    simp only [textAfter, h, hafter, Option.getD_some]
  rw [heqBefore, heqAfter]
  exact ⟨hplace, rfl⟩

theorem startsWithText_iff_eq_append :
    startsWithText text sought = true ↔ ∃ w, text = sought ++ w := by
  rw [startsWithText_iff]
  constructor
  · rintro ⟨rest, heq⟩
    refine ⟨String.ofList rest, String.toList_inj.mp ?_⟩
    rw [String.toList_append, String.toList_ofList, heq]
  · rintro ⟨w, rfl⟩
    exact ⟨w.toList, String.toList_append.symm⟩

/-- A text starts with another just when its first place there has nothing in front. -/
theorem FirstPlace.before_eq_empty_iff (h : FirstPlace text sought before after) :
    before = "" ↔ ∃ w, text = sought ++ w := by
  constructor
  · rintro rfl
    exact ⟨after, h.eq_append.trans (by rw [String.empty_append])⟩
  · rintro ⟨w, heq⟩
    have hle := h.le_length "" w (heq.trans (by rw [String.empty_append]))
    exact String.length_eq_zero_iff.mp (Nat.le_zero.mp hle)

/-! ## Calls -/

/-- Of two texts, the first contains the second just when there are texts around it that make up
the first. Then the part before it is the shortest such text and the part behind it the one that
goes with it; else both are empty. A text starts with another just when it contains it and nothing
is before it. The place that is found in the bytes, and the place behind the sought text, both lie
between characters, and what is given is what is cut out there. -/
theorem calls_at_firstPlace (v : View) (focus : Focus) (text sought : String) :
    let args : List Value := [.string text, .string sought]
    ∃ (found starts : Bool) (before after : String),
      contains.call v focus args = .ok (.boolean found) ∧
      startsWith.call v focus args = .ok (.boolean starts) ∧
      substringBefore.call v focus args = .ok (.string before) ∧
      substringAfter.call v focus args = .ok (.string after) ∧
      (found = true ↔ ∃ u w, text = u ++ sought ++ w) ∧
      (found = true → text = before ++ sought ++ after ∧
        ∀ u w, text = u ++ sought ++ w → before.length ≤ u.length) ∧
      (found = false → before = "" ∧ after = "") ∧
      (starts = true ↔ found = true ∧ before = "") ∧
      found = (offset? sought text).isSome ∧
      ∀ offset, offset? sought text = some offset →
        String.Pos.Raw.IsValid text ⟨offset⟩ ∧
        String.Pos.Raw.IsValid text ⟨offset + sought.utf8ByteSize⟩ ∧
        slice? text 0 offset = some before ∧
        slice? text (offset + sought.utf8ByteSize) text.utf8ByteSize = some after := by
  intro args
  refine ⟨containsText text sought, startsWithText text sought, textBefore text sought,
    textAfter text sought, rfl, rfl, rfl, rfl, Text.isSome_offset?, ?_⟩
  rw [startsWithText_iff_eq_append, containsText]
  cases hoffset : offset? sought text with
  | none =>
      have hnowhere : ¬ ∃ u w, text = u ++ sought ++ w := by
        rw [← Text.isSome_offset?, hoffset]
        exact Bool.false_ne_true
      have hbefore : textBefore text sought = "" := by rw [textBefore, hoffset]
      have hafter : textAfter text sought = "" := by rw [textAfter, hoffset]
      refine ⟨fun hfound => absurd hfound Bool.false_ne_true, fun _ => ⟨hbefore, hafter⟩,
        iff_of_false ?_ fun h => absurd h.1 Bool.false_ne_true, rfl,
        fun _ hsome => absurd hsome.symm (Option.some_ne_none _)⟩
      rintro ⟨w, heq⟩
      exact hnowhere ⟨"", w, heq.trans (by rw [String.empty_append])⟩
  | some offset =>
      obtain ⟨hplace, heq⟩ := firstPlace_textBefore hoffset
      refine ⟨fun _ => ⟨hplace.eq_append, hplace.le_length⟩,
        fun hfound => absurd hfound.symm Bool.false_ne_true, ?_, rfl, ?_⟩
      · rw [hplace.before_eq_empty_iff, Option.isSome_some, and_iff_right rfl]
      · intro _ hsome
        obtain rfl := Option.some.inj hsome
        rw [heq]
        exact cuts_of_eq_append hplace.eq_append

example : offset? "€" "añ€b€" = some 3 ∧ textBefore "añ€b€" "€" = "añ" ∧
    textAfter "añ€b€" "€" = "b€" := by decide +kernel

end TreeQuery.Function
