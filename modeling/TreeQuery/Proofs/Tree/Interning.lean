import Mathlib.Algebra.GroupWithZero.Nat
import Mathlib.Algebra.Order.BigOperators.Group.Finset
import Mathlib.Data.List.Nodup
import TreeQuery.Proofs.Outcome
import TreeQuery.Proofs.Text.Bytes
import TreeQuery.Tree.StringPool

/-!
What a pool of strings stands for: a list of different strings, none of them empty, in the order in
which they came. The text, the spans and the buckets of the pool all follow from that list, up to
the hash, of which nothing is asked.
-/
namespace TreeQuery

/-! ## Texts one behind the other -/

theorem utf8ByteSize_join (texts : List String) :
    (String.join texts).utf8ByteSize = (texts.map (·.utf8ByteSize)).sum := by
  induction texts with
  | nil => rfl
  | cons text texts ih =>
      rw [String.join_cons, String.utf8ByteSize_append, List.map_cons, List.sum_cons, ih]

/-- Strings that are not empty have one byte each at least. -/
theorem length_le_utf8ByteSize_join {texts : List String} (h : "" ∉ texts) :
    texts.length ≤ (String.join texts).utf8ByteSize := by
  induction texts with
  | nil => exact Nat.zero_le _
  | cons text texts ih =>
      obtain ⟨htext, htexts⟩ := not_or.mp (List.mem_cons.not.mp h)
      have hpos : 0 < text.utf8ByteSize :=
        Nat.pos_of_ne_zero fun hzero => htext (String.utf8ByteSize_eq_zero_iff.mp hzero).symm
      rw [String.join_cons, String.utf8ByteSize_append, List.length_cons]
      have hle := ih htexts
      omega

namespace StringPool

variable {pool : StringPool} {stored texts : List String} {text : String}

/-! ## What a pool stands for -/

/-- The number of a string of a list: its place, counted from one. The empty string has zero. -/
def numberIn (stored : List String) (text : String) : UInt32 :=
  if text = "" then 0 else .ofNat (stored.idxOf text + 1)

/-- A pool keeps the strings of a list, in that order. -/
structure Stores (pool : StringPool) (stored : List String) : Prop where
  nodup : stored.Nodup
  nonempty : "" ∉ stored
  data : pool.data = String.join stored
  room : (String.join stored).utf8ByteSize < UInt32.size
  size : pool.size = stored.length + 1
  span_zero : pool.spans[0]? = some ⟨0, 0⟩
  span : ∀ before text after, stored = before ++ text :: after →
    pool.spans[before.length + 1]? =
      some ⟨.ofNat (String.join before).utf8ByteSize, .ofNat text.utf8ByteSize⟩
  bucket : ∀ hash id, id ∈ pool.bucket hash ↔
    ∃ text ∈ stored, pool.hash text = hash ∧ numberIn stored text = id

theorem stores_empty (hash : String → UInt64) : (empty hash).Stores [] where
  nodup := .nil
  nonempty := List.not_mem_nil
  data := rfl
  room := by decide
  size := rfl
  span_zero := rfl
  span before text after h := by simp at h
  bucket hash' id := by simp [StringPool.bucket, empty]

/-! ## Numbers -/

theorem numberIn_of_split {before after : List String} (hne : text ≠ "") (hnew : text ∉ before) :
    numberIn (before ++ text :: after) text = .ofNat (before.length + 1) := by
  rw [numberIn, if_neg hne, List.idxOf_append_of_notMem hnew, List.idxOf_cons_self]

theorem numberIn_append (more : List String) (h : text = "" ∨ text ∈ stored) :
    numberIn (stored ++ more) text = numberIn stored text := by
  rcases h with rfl | h
  · rfl
  · rw [numberIn, numberIn, List.idxOf_append_of_mem h]

namespace Stores

/-- Every string of the list is in front of and behind others, and its number says how many are in
front; all numbers are within 32 bits. -/
theorem exists_split (h : pool.Stores stored) (htext : text ∈ stored) :
    ∃ before after, stored = before ++ text :: after ∧
      numberIn stored text = .ofNat (before.length + 1) ∧
      (numberIn stored text).toNat = before.length + 1 := by
  obtain ⟨before, after, hsplit, hnew⟩ := List.eq_append_cons_of_mem htext
  have hne : text ≠ "" := fun hempty => h.nonempty (hempty ▸ htext)
  have hnumber : numberIn stored text = .ofNat (before.length + 1) := by
    rw [hsplit]
    exact numberIn_of_split hne hnew
  have hlength : stored.length = before.length + (after.length + 1) := by
    rw [hsplit, List.length_append, List.length_cons]
  refine ⟨before, after, hsplit, hnumber, ?_⟩
  rw [hnumber, UInt32.toNat_ofNat_of_lt']
  have hle := length_le_utf8ByteSize_join h.nonempty
  have hroom := h.room
  omega

theorem get_zero (h : pool.Stores stored) : pool.get 0 = "" := by
  rw [get, UInt32.toNat_zero, h.span_zero]
  exact congrArg (·.getD "") (slice?_append "" "" pool.data)

/-- The string of a number is read back from its span. -/
theorem get_numberIn (h : pool.Stores stored) (htext : text = "" ∨ text ∈ stored) :
    pool.get (numberIn stored text) = text := by
  rcases htext with rfl | htext
  · exact h.get_zero
  · obtain ⟨before, after, hsplit, -, hnumber⟩ := h.exists_split htext
    have hdata : pool.data = String.join before ++ text ++ String.join after := by
      rw [h.data, hsplit, String.join_append, String.join_cons, String.append_assoc]
    have hsize : (String.join before).utf8ByteSize + text.utf8ByteSize < UInt32.size := by
      have hroom := h.room
      rw [← h.data, hdata, String.utf8ByteSize_append, String.utf8ByteSize_append] at hroom
      omega
    rw [get, hnumber, h.span before text after hsplit]
    simp only
    rw [UInt32.toNat_ofNat_of_lt' (by omega), UInt32.toNat_ofNat_of_lt' (by omega), hdata,
      slice?_append]
    rfl

/-- Different strings have different numbers. -/
theorem numberIn_inj (h : pool.Stores stored) {other : String} (htext : text = "" ∨ text ∈ stored)
    (hother : other = "" ∨ other ∈ stored) (heq : numberIn stored text = numberIn stored other) :
    text = other := by
  rw [← h.get_numberIn htext, heq, h.get_numberIn hother]

/-- A string is found just when it is in the list, whatever else has its hash. -/
theorem find?_eq (h : pool.Stores stored) (text : String) :
    pool.find? text = if text = "" ∨ text ∈ stored then some (numberIn stored text) else none := by
  by_cases hempty : text = ""
  · subst hempty
    rfl
  · rw [find?, if_neg hempty]
    by_cases htext : text ∈ stored
    · rw [if_pos (.inr htext)]
      have hsome : ((pool.bucket (pool.hash text)).find? (pool.get · == text)).isSome = true := by
        refine List.find?_isSome.mpr ⟨numberIn stored text, ?_, ?_⟩
        · exact (h.bucket _ _).mpr ⟨text, htext, rfl, rfl⟩
        · exact beq_iff_eq.mpr (h.get_numberIn (.inr htext))
      obtain ⟨id, hid⟩ := Option.isSome_iff_exists.mp hsome
      obtain ⟨found, hfound, -, rfl⟩ := (h.bucket _ _).mp (List.mem_of_find?_eq_some hid)
      have hget := List.find?_some hid
      rw [h.get_numberIn (.inr hfound), beq_iff_eq] at hget
      rw [hid, hget]
    · rw [if_neg (not_or.mpr ⟨hempty, htext⟩), List.find?_eq_none]
      intro id hid hget
      obtain ⟨found, hfound, -, rfl⟩ := (h.bucket _ _).mp hid
      rw [h.get_numberIn (.inr hfound), beq_iff_eq] at hget
      exact htext (hget ▸ hfound)

end Stores

/-! ## Putting strings in -/

theorem bucket_push (pool : StringPool) (text : String) (hash : UInt64) :
    (pool.push text).2.bucket hash = if hash = pool.hash text then
      pool.bucket hash ++ [(pool.push text).1] else pool.bucket hash := by
  rw [bucket, push, List.lookup_cons]
  by_cases h : hash = pool.hash text
  · rw [if_pos h, beq_iff_eq.mpr h, h]
    rfl
  · rw [if_neg h, beq_eq_false_iff_ne.mpr h]
    exact congrArg (·.getD []) (lookup_filter_ne pool.buckets h)

theorem spans_push (pool : StringPool) (text : String) :
    (pool.push text).2.spans =
      pool.spans.push ⟨.ofNat pool.data.utf8ByteSize, .ofNat text.utf8ByteSize⟩ := rfl

/-- A string of a list with one more at its end is the last one, or it was there before. -/
theorem eq_or_kept_of_append_singleton {before after : List String} {other : String}
    (h : stored ++ [text] = before ++ other :: after) :
    (after = [] ∧ before = stored ∧ other = text) ∨
      ∃ kept, after = kept ++ [text] ∧ stored = before ++ other :: kept := by
  rcases List.eq_nil_or_concat after with rfl | ⟨kept, last, rfl⟩
  · obtain ⟨hstored, htext⟩ := List.append_inj' h rfl
    exact .inl ⟨rfl, hstored.symm, (List.singleton_inj.mp htext).symm⟩
  · rw [List.concat_eq_append, ← List.cons_append, ← List.append_assoc] at h
    obtain ⟨hstored, htext⟩ := List.append_inj' h rfl
    exact .inr ⟨kept, by rw [List.concat_eq_append, List.singleton_inj.mp htext], hstored⟩

namespace Stores

/-- What is put in gets the number behind all others. -/
theorem push_fst (h : pool.Stores stored) (hne : text ≠ "") (hnew : text ∉ stored) :
    (pool.push text).1 = numberIn (stored ++ [text]) text := by
  rw [numberIn_of_split hne hnew, ← h.size]
  rfl

theorem span_push (h : pool.Stores stored) {before after : List String} {other : String}
    (hsplit : stored ++ [text] = before ++ other :: after) :
    (pool.push text).2.spans[before.length + 1]? =
      some ⟨.ofNat (String.join before).utf8ByteSize, .ofNat other.utf8ByteSize⟩ := by
  have hsize : pool.spans.size = stored.length + 1 := h.size
  rw [spans_push, Array.getElem?_push, hsize]
  obtain ⟨-, rfl, rfl⟩ | ⟨kept, -, rfl⟩ := eq_or_kept_of_append_singleton hsplit
  · rw [if_pos rfl, h.data]
  · rw [if_neg (by simp), h.span before other kept rfl]

theorem mem_bucket_push (h : pool.Stores stored) (hne : text ≠ "") (hnew : text ∉ stored)
    (hash : UInt64) (id : UInt32) :
    id ∈ (pool.push text).2.bucket hash ↔ ∃ other ∈ stored ++ [text],
      pool.hash other = hash ∧ numberIn (stored ++ [text]) other = id := by
  have hkeeps : ∀ other ∈ stored, numberIn (stored ++ [text]) other = numberIn stored other :=
    fun other hother => numberIn_append [text] (.inr hother)
  have hold : id ∈ pool.bucket hash ↔
      ∃ other ∈ stored, pool.hash other = hash ∧ numberIn (stored ++ [text]) other = id := by
    rw [h.bucket]
    exact exists_congr fun other => and_congr_right fun hother => by rw [hkeeps other hother]
  have hpush : id ∈ (pool.push text).2.bucket hash ↔
      id ∈ pool.bucket hash ∨ pool.hash text = hash ∧ numberIn (stored ++ [text]) text = id := by
    rw [bucket_push, h.push_fst hne hnew]
    split
    · rename_i hhash
      simp [hhash, eq_comm]
    · rename_i hhash
      simp [Ne.symm hhash]
  rw [hpush, hold]
  simp only [List.mem_append, List.mem_singleton, or_and_right, exists_or, exists_eq_left]

theorem push (h : pool.Stores stored) (hne : text ≠ "") (hnew : text ∉ stored)
    (hroom : (String.join (stored ++ [text])).utf8ByteSize < UInt32.size) :
    (pool.push text).2.Stores (stored ++ [text]) where
  nodup := by simpa using h.nodup.concat hnew
  nonempty hmem := (List.mem_append.mp hmem).elim h.nonempty fun hlast =>
    hne (List.mem_singleton.mp hlast).symm
  data := by
    rw [String.join_append, ← h.data]
    simp [StringPool.push]
  room := hroom
  size := by
    have hsize : pool.spans.size = stored.length + 1 := h.size
    rw [StringPool.size, spans_push, Array.size_push, hsize, List.length_append]
    rfl
  span_zero := by
    have hsize : pool.spans.size = stored.length + 1 := h.size
    rw [spans_push, Array.getElem?_push, if_neg (by omega)]
    exact h.span_zero
  span _ _ _ hsplit := h.span_push hsplit
  bucket := h.mem_bucket_push hne hnew

end Stores

/-- A string that is known gets its number and changes nothing. -/
theorem Stores.intern_of_mem (h : pool.Stores stored) (htext : text = "" ∨ text ∈ stored) :
    pool.intern text = (numberIn stored text, pool) := by
  rw [intern, h.find?_eq, if_pos htext]

/-- To put a string in adds it to the list, if it is not there. -/
theorem Stores.intern (h : pool.Stores stored)
    (hroom : text ≠ "" → text ∉ stored →
      (String.join (stored ++ [text])).utf8ByteSize < UInt32.size) :
    ∃ more, (pool.intern text).2.Stores (stored ++ more) ∧
      (∀ other, other ∈ stored ++ more ↔ other ∈ stored ∨ other = text ∧ other ≠ "") ∧
      (pool.intern text).1 = numberIn (stored ++ more) text := by
  by_cases htext : text = "" ∨ text ∈ stored
  · rw [h.intern_of_mem htext]
    refine ⟨[], by rwa [List.append_nil], fun other => ?_, by rw [List.append_nil]⟩
    rw [List.append_nil]
    grind
  · obtain ⟨hne, hnew⟩ := not_or.mp htext
    have hstores := h.push hne hnew (hroom hne hnew)
    have hnumber := h.push_fst hne hnew
    have hpush : pool.intern text = pool.push text := by
      rw [StringPool.intern, h.find?_eq, if_neg htext]
    refine ⟨[text], hpush ▸ hstores, fun other => ?_, hpush ▸ hnumber⟩
    rw [List.mem_append, List.mem_singleton]
    grind

/-! ## Runs -/

/-- Puts strings in one after the other and gives their numbers. -/
def internAll (pool : StringPool) : List String → List UInt32 × StringPool
  | [] => ([], pool)
  | text :: texts =>
    let (id, pool) := pool.intern text
    let (ids, pool) := internAll pool texts
    (id :: ids, pool)

/-- Whichever of some strings are taken once each, 32-bit words measure them all together. -/
def Fits (texts : List String) : Prop :=
  ∀ taken : List String, taken.Nodup → taken ⊆ texts →
    (String.join taken).utf8ByteSize < UInt32.size

theorem fits_of_sum_lt (h : ∑ text ∈ texts.toFinset, text.utf8ByteSize < UInt32.size) :
    Fits texts := by
  intro taken hnodup hsub
  have hfinset : taken.toFinset ⊆ texts.toFinset := fun text htext =>
    List.mem_toFinset.mpr (hsub (List.mem_toFinset.mp htext))
  calc (String.join taken).utf8ByteSize
      = ∑ text ∈ taken.toFinset, text.utf8ByteSize := by
        rw [utf8ByteSize_join, List.sum_toFinset _ hnodup]
    _ ≤ ∑ text ∈ texts.toFinset, text.utf8ByteSize := Finset.sum_le_sum_of_subset hfinset
    _ < UInt32.size := h

/-- To put strings in adds to the list those that are not there; what numbers they are given can be
read off the list at the end. -/
theorem Stores.internAll (h : pool.Stores stored) (hroom : Fits (stored ++ texts)) :
    ∃ more, (pool.internAll texts).2.Stores (stored ++ more) ∧
      (∀ other, other ∈ stored ++ more ↔ other ∈ stored ∨ other ∈ texts ∧ other ≠ "") ∧
      (pool.internAll texts).1 = texts.map (numberIn (stored ++ more)) := by
  induction texts generalizing pool stored with
  | nil => exact ⟨[], by rwa [List.append_nil], by simp, rfl⟩
  | cons text texts ih =>
      obtain ⟨first, hfirst, hmem, hnumber⟩ := h.intern fun _ hnew =>
        hroom (stored ++ [text]) (by simpa using h.nodup.concat hnew) (by simp)
      have hsub : stored ++ first ++ texts ⊆ stored ++ text :: texts := by
        intro other hother
        grind
      obtain ⟨more, hstores, hmem', hnumbers⟩ := ih hfirst fun taken hnodup htaken =>
        hroom taken hnodup (List.Subset.trans htaken hsub)
      have hknown : text = "" ∨ text ∈ stored ++ first := by
        grind
      rw [List.append_assoc] at hstores hmem' hnumbers
      refine ⟨first ++ more, hstores, fun other => ?_, ?_⟩
      · rw [hmem', hmem]
        grind
      · calc ((pool.intern text).1 :: ((pool.intern text).2.internAll texts).1)
            = numberIn (stored ++ first) text :: texts.map (numberIn (stored ++ (first ++ more))) :=
              by rw [hnumber, hnumbers]
          _ = (text :: texts).map (numberIn (stored ++ (first ++ more))) := by
              rw [← numberIn_append more hknown, List.append_assoc, List.map_cons]

/-- A pool that any strings were put into, with less than `2 ^ 32` bytes in the different ones of
them, has given each of them one number, the same every time and to no other string. Whatever the
hash is, the string of that number is that string; looking a string up finds its number if it is
empty or was put in, and nothing otherwise; to put in again what was put in, or the empty string,
gives its number and changes nothing; and the pool knows the empty string and the different other
ones that were put in. -/
theorem one_number_each (hash : String → UInt64) (texts : List String)
    (hroom : ∑ text ∈ texts.toFinset, text.utf8ByteSize < UInt32.size) :
    let run := (empty hash).internAll texts
    let pool := run.2
    ∃ number : String → UInt32,
      run.1 = texts.map number ∧
      (∀ text ∈ texts, ∀ other ∈ texts, number text = number other → text = other) ∧
      (∀ text ∈ texts, pool.get (number text) = text) ∧
      (∀ text, pool.find? text =
        if text = "" ∨ text ∈ texts then some (number text) else none) ∧
      (∀ text, text = "" ∨ text ∈ texts → pool.intern text = (number text, pool)) ∧
      pool.size = 1 + (texts.toFinset.erase "").card := by
  intro run pool
  obtain ⟨stored, hstores, hmem, hnumbers⟩ :=
    (stores_empty hash).internAll (fits_of_sum_lt hroom)
  rw [List.nil_append] at hstores hmem hnumbers
  have hknown : ∀ text, text = "" ∨ text ∈ stored ↔ text = "" ∨ text ∈ texts := by
    intro text
    rw [hmem]
    grind
  have hin : ∀ text ∈ texts, text = "" ∨ text ∈ stored := fun text htext =>
    (hknown text).mpr (.inr htext)
  have hset : stored.toFinset = texts.toFinset.erase "" := by
    ext text
    rw [List.mem_toFinset, hmem, Finset.mem_erase, List.mem_toFinset]
    grind
  refine ⟨numberIn stored, hnumbers, fun text htext other hother => ?_, fun text htext => ?_,
    fun text => ?_, fun text htext => ?_, ?_⟩
  · exact hstores.numberIn_inj (hin text htext) (hin other hother)
  · exact hstores.get_numberIn (hin text htext)
  · rw [hstores.find?_eq, if_congr (hknown text) rfl rfl]
  · exact hstores.intern_of_mem ((hknown text).mpr htext)
  · rw [hstores.size, ← hset, List.toFinset_card_of_nodup hstores.nodup, Nat.add_comm]

/-- All strings share one bucket, one of them twice and the empty one among them. -/
theorem one_number_each_colliding :
    let texts := ["a", "é", "", "a", "aé"]
    let run := (empty fun _ => 0).internAll texts
    ∑ text ∈ texts.toFinset, text.utf8ByteSize < UInt32.size ∧
      run.1 = [1, 2, 0, 1, 3] ∧ run.2.get 3 = "aé" ∧ run.2.find? "é" = some 2 ∧
      run.2.find? "éa" = none ∧ run.2.size = 4 := by
  intro texts run
  have hroom : ∑ text ∈ texts.toFinset, text.utf8ByteSize < UInt32.size := by decide
  obtain ⟨number, hnumbers, -, hget, hfind, -, hsize⟩ := one_number_each (fun _ => 0) texts hroom
  have hids : run.1 = [1, 2, 0, 1, 3] := by decide +kernel
  have heq : texts.map number = [1, 2, 0, 1, 3] := hnumbers.symm.trans hids
  simp only [texts, List.map_cons, List.cons.injEq] at heq
  obtain ⟨-, hsecond, -, -, hlast, -⟩ := heq
  refine ⟨hroom, hids, ?_, ?_, ?_, hsize⟩
  · rw [← hlast]
    exact hget "aé" (by decide)
  · rw [← hsecond]
    exact hfind "é"
  · exact hfind "éa"

end StringPool

end TreeQuery
