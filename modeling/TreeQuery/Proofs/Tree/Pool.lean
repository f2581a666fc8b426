import TreeQuery.Proofs.Tree.Interning

/-!
Pools that grow. Whatever is put into a pool, the strings of the numbers that are given already stay
what they are, also where words of 32 bits are too short for the places of later strings. As long as
they are long enough, the string of a new number is the one that was put in, and different numbers
have different strings.
-/
namespace TreeQuery.StringPool

variable {pool next last : StringPool} {id other : UInt32} {text : String}

/-- How many bytes the strings of a pool take. -/
def byteSize (pool : StringPool) : Nat := pool.data.utf8ByteSize

/-- All spans are within the text, and only numbers that are given are filed. -/
structure Laid (pool : StringPool) : Prop where
  size_pos : 0 < pool.size
  span_le : ∀ (i : Nat) (span : Span), pool.spans[i]? = some span →
    span.start.toNat + span.length.toNat ≤ pool.byteSize
  bucket_lt : ∀ hash, ∀ id ∈ pool.bucket hash, id.toNat < pool.size

/-- The pool keeps strings that are read back whole. -/
def Whole (pool : StringPool) : Prop := ∃ stored, pool.Stores stored

/-- The second pool knows all strings of the first one by the same numbers. -/
structure Grows (pool next : StringPool) : Prop where
  laid : next.Laid
  size_le : pool.size ≤ next.size
  byteSize_le : pool.byteSize ≤ next.byteSize
  get_eq : ∀ id : UInt32, id.toNat < pool.size → next.get id = pool.get id
  whole : pool.Whole → next.byteSize < UInt32.size → next.Whole

theorem Laid.grows (h : pool.Laid) : pool.Grows pool :=
  ⟨h, Nat.le_refl _, Nat.le_refl _, fun _ _ => rfl, fun hwhole _ => hwhole⟩

namespace Grows

/-- What fits into the larger pool fits into the smaller one. -/
theorem room (h : pool.Grows next) (hroom : next.byteSize < UInt32.size) :
    pool.byteSize < UInt32.size :=
  Nat.lt_of_le_of_lt h.byteSize_le hroom

theorem trans (h : pool.Grows next) (h' : next.Grows last) : pool.Grows last where
  laid := h'.laid
  size_le := Nat.le_trans h.size_le h'.size_le
  byteSize_le := Nat.le_trans h.byteSize_le h'.byteSize_le
  get_eq id hid := (h'.get_eq id (Nat.lt_of_lt_of_le hid h.size_le)).trans (h.get_eq id hid)
  whole hpool hroom := h'.whole (h.whole hpool (h'.room hroom)) hroom

theorem lt (h : pool.Grows next) (hid : id.toNat < pool.size) : id.toNat < next.size :=
  Nat.lt_of_lt_of_le hid h.size_le

end Grows

/-! ## One string more -/

theorem laid_empty (hash : String → UInt64) : (empty hash).Laid where
  size_pos := Nat.one_pos
  span_le i span hspan := by
    cases i with
    | zero =>
        obtain rfl : (⟨0, 0⟩ : Span) = span := Option.some.inj hspan
        exact Nat.zero_le _
    | succ i => cases hspan
  bucket_lt hash id hid := by simp [bucket, empty] at hid

theorem byteSize_push (pool : StringPool) (text : String) :
    (pool.push text).2.byteSize = pool.byteSize + text.utf8ByteSize :=
  String.utf8ByteSize_append

theorem size_push (pool : StringPool) (text : String) :
    (pool.push text).2.size = pool.size + 1 := Array.size_push _

theorem push_lt (pool : StringPool) (text : String) :
    (pool.push text).1.toNat < (pool.push text).2.size := by
  have hmod : (pool.push text).1.toNat = pool.size % 2 ^ 32 := UInt32.toNat_ofNat'
  rw [hmod, size_push]
  exact Nat.lt_succ_of_le (Nat.mod_le _ _)

namespace Laid

variable (h : pool.Laid)
include h

theorem push (text : String) : (pool.push text).2.Laid where
  size_pos := by
    rw [size_push]
    exact Nat.succ_pos _
  span_le i span hspan := by
    rw [spans_push, Array.getElem?_push] at hspan
    rw [byteSize_push]
    split at hspan
    · obtain rfl := Option.some.inj hspan
      have hstart : (UInt32.ofNat pool.data.utf8ByteSize).toNat ≤ pool.byteSize := by
        rw [UInt32.toNat_ofNat']
        exact Nat.mod_le _ _
      have hlength : (UInt32.ofNat text.utf8ByteSize).toNat ≤ text.utf8ByteSize := by
        rw [UInt32.toNat_ofNat']
        exact Nat.mod_le _ _
      exact Nat.add_le_add hstart hlength
    · exact Nat.le_trans (h.span_le i span hspan) (Nat.le_add_right _ _)
  bucket_lt hash id hid := by
    have hkept : ∀ id ∈ pool.bucket hash, id.toNat < (pool.push text).2.size := fun id hold => by
      rw [size_push]
      exact Nat.lt_succ_of_lt (h.bucket_lt hash id hold)
    rw [bucket_push] at hid
    split at hid
    · rcases List.mem_append.mp hid with hold | hnew
      · exact hkept id hold
      · rw [List.mem_singleton.mp hnew]
        exact push_lt pool text
    · exact hkept id hid

theorem get_push (hid : id.toNat < pool.size) (text : String) :
    (pool.push text).2.get id = pool.get id := by
  have hlt : id.toNat < pool.spans.size := hid
  have hspan := h.span_le id.toNat _ (Array.getElem?_eq_getElem hlt)
  rw [get, get, spans_push, Array.getElem?_push, if_neg (Nat.ne_of_lt hlt),
    Array.getElem?_eq_getElem hlt]
  exact congrArg (·.getD "") (slice?_append_left hspan)

theorem find?_lt (hfind : pool.find? text = some id) : id.toNat < pool.size := by
  rw [find?] at hfind
  split at hfind
  · obtain rfl := Option.some.inj hfind
    exact h.size_pos
  · exact h.bucket_lt _ _ (List.mem_of_find?_eq_some hfind)

end Laid

/-- A string that is put in while there is room is read back whole, and so are all others. -/
theorem Whole.intern (h : pool.Whole) (hroom : (pool.intern text).2.byteSize < UInt32.size) :
    (pool.intern text).2.Whole ∧ (pool.intern text).2.get (pool.intern text).1 = text := by
  obtain ⟨stored, hstores⟩ := h
  have hfits : text ≠ "" → text ∉ stored →
      (String.join (stored ++ [text])).utf8ByteSize < UInt32.size := by
    intro hne hnew
    have hnone : pool.find? text = none := by
      rw [hstores.find?_eq, if_neg (not_or.mpr ⟨hne, hnew⟩)]
    rw [StringPool.intern, hnone, byteSize_push, byteSize, hstores.data] at hroom
    rw [String.join_append, String.utf8ByteSize_append]
    simpa using hroom
  obtain ⟨more, hnext, hmem, hnumber⟩ := hstores.intern hfits
  refine ⟨⟨_, hnext⟩, hnumber ▸ hnext.get_numberIn ?_⟩
  by_cases hempty : text = ""
  · exact .inl hempty
  · exact .inr ((hmem text).mpr (.inr ⟨rfl, hempty⟩))

namespace Laid

variable (h : pool.Laid) (text : String)
include h

theorem grows_intern : pool.Grows (pool.intern text).2 := by
  have hwhole : pool.Whole → (pool.intern text).2.byteSize < UInt32.size →
      (pool.intern text).2.Whole := fun hpool hroom => (hpool.intern hroom).1
  rw [intern] at hwhole ⊢
  cases hfind : pool.find? text with
  | some id => exact h.grows
  | none =>
      rw [hfind] at hwhole
      refine ⟨h.push text, ?_, ?_, fun id hid => h.get_push hid text, hwhole⟩
      · rw [size_push]
        exact Nat.le_succ _
      · rw [byteSize_push]
        exact Nat.le_add_right _ _

theorem intern_lt : (pool.intern text).1.toNat < (pool.intern text).2.size := by
  rw [intern]
  cases hfind : pool.find? text with
  | some id => exact h.find?_lt hfind
  | none => exact push_lt pool text

end Laid

/-- The string of a number stays what was put in, whatever is put in later. -/
theorem Whole.get_intern (h : pool.Whole) (hpool : pool.Laid)
    (hg : (pool.intern text).2.Grows next) (hroom : next.byteSize < UInt32.size) :
    next.get (pool.intern text).1 = text := by
  rw [hg.get_eq _ (hpool.intern_lt text)]
  exact (h.intern (hg.room hroom)).2

/-! ## Numbers and their strings -/

namespace Whole

variable (h : pool.Whole)
include h

theorem get_zero : pool.get 0 = "" := by
  obtain ⟨stored, hstores⟩ := h
  exact hstores.get_zero

/-- Numbers of one string are one number. -/
theorem get_inj (hid : id.toNat < pool.size) (hother : other.toNat < pool.size)
    (heq : pool.get id = pool.get other) : id = other := by
  obtain ⟨stored, hstores⟩ := h
  have hnumber : ∀ id : UInt32, id.toNat < pool.size →
      ∃ text, (text = "" ∨ text ∈ stored) ∧ numberIn stored text = id := by
    intro id hid
    cases hi : id.toNat with
    | zero => exact ⟨"", .inl rfl, (UInt32.toNat_inj.mp hi).symm⟩
    | succ i =>
        rw [hstores.size, hi] at hid
        have hmem : stored[i] ∈ stored := List.getElem_mem (Nat.lt_of_succ_lt_succ hid)
        have hne : stored[i] ≠ "" := fun hempty => hstores.nonempty (hempty ▸ hmem)
        refine ⟨stored[i], .inr hmem, ?_⟩
        rw [numberIn, if_neg hne, hstores.nodup.idxOf_getElem, ← hi, UInt32.ofNat_toNat]
  obtain ⟨text, htext, rfl⟩ := hnumber id hid
  obtain ⟨text', htext', rfl⟩ := hnumber other hother
  rw [hstores.get_numberIn htext, hstores.get_numberIn htext'] at heq
  rw [heq]

theorem get_eq_iff (hid : id.toNat < pool.size) (hother : other.toNat < pool.size) :
    pool.get id = pool.get other ↔ id = other :=
  ⟨h.get_inj hid hother, fun heq => heq ▸ rfl⟩

theorem get_eq_empty_iff (hid : id.toNat < pool.size) : pool.get id = "" ↔ id = 0 := by
  rw [← h.get_zero]
  exact h.get_eq_iff hid (Nat.zero_lt_of_lt hid)

end Whole

end TreeQuery.StringPool
