import TreeQuery.Cache
import TreeQuery.Proofs.Outcome

/-!
What a cache holds after each of its operations, and how many entries it has. A hit moves an entry
and changes no value; only a value that is put in, or a cache that is emptied, can drive entries
out. From this the four ways in which a value is got: found at once, not built, found after the
build, or put in.
-/
namespace TreeQuery

/-- A policy lets a cache have that many entries. -/
def CachePolicy.Allows : CachePolicy → Nat → Prop
  | .unbounded, _ => True
  | .bounded capacity _, size => size ≤ capacity

theorem CachePolicy.Allows.mono {policy : CachePolicy} {m n : Nat} (h : policy.Allows n)
    (hle : m ≤ n) : policy.Allows m := by
  cases policy with
  | unbounded => trivial
  | bounded capacity positive => exact Nat.le_trans hle h

namespace Cache

variable {α ε σ : Type} {c : Cache α} {key other : String} {value : α}

/-! ## What is found -/

theorem lookup?_touch (c : Cache α) (key other : String) (value : α) :
    (c.touch key value).lookup? other = if other = key then some value else c.lookup? other := by
  rw [lookup?, touch, List.lookup_cons]
  by_cases h : other = key
  · rw [if_pos h, beq_iff_eq.mpr h]
  · rw [if_neg h, beq_eq_false_iff_ne.mpr h]
    exact lookup_filter_ne c.entries h

/-- To use an entry is no change of what is found. -/
theorem lookup?_touch_of_lookup (h : c.lookup? key = some value) (other : String) :
    (c.touch key value).lookup? other = c.lookup? other := by
  rw [lookup?_touch]
  split
  · rename_i hother
    rw [hother, h]
  · rfl

/-- What is still found when entries were dropped was found before. -/
theorem lookup?_trim (c : Cache α) (key : String) :
    c.trim.lookup? key = none ∨ c.trim.lookup? key = c.lookup? key := by
  rw [trim]
  split
  · exact .inr rfl
  · rename_i capacity _ _
    have happend : c.lookup? key =
        ((c.entries.take capacity).lookup key).or ((c.entries.drop capacity).lookup key) := by
      rw [← List.lookup_append, List.take_append_drop, lookup?]
    rw [happend, lookup?]
    cases (c.entries.take capacity).lookup key with
    | none => exact .inl rfl
    | some value => exact .inr rfl

/-- What was put in is found: the capacity has room for the entry at the front. -/
theorem lookup?_insert_self (c : Cache α) (key : String) (value : α) :
    (c.insert key value).lookup? key = some value := by
  rw [insert, trim, lookup?]
  split
  · exact List.lookup_cons_self
  · rename_i capacity positive _
    obtain ⟨n, rfl⟩ := Nat.exists_eq_add_of_lt positive
    exact List.lookup_cons_self

theorem lookup?_insert_of_ne (c : Cache α) (value : α) (h : other ≠ key) :
    (c.insert key value).lookup? other = none ∨
      (c.insert key value).lookup? other = c.lookup? other := by
  have htrim := lookup?_trim (c.touch key value) other
  rwa [lookup?_touch, if_neg h] at htrim

/-! ## How many entries there are -/

theorem policy_trim (c : Cache α) : c.trim.policy = c.policy := by
  rw [trim]
  split <;> rfl

theorem allows_trim (c : Cache α) : c.policy.Allows c.trim.size := by
  rw [trim, size]
  split
  · rename_i hpolicy
    rw [hpolicy]
    trivial
  · rename_i capacity _ hpolicy
    rw [hpolicy]
    exact List.length_take_le capacity c.entries

/-- An entry that is used takes the place of one that was there. -/
theorem size_touch_le (h : c.lookup? key = some value) : (c.touch key value).size ≤ c.size := by
  have hentry : (key, value) ∈ c.entries := mem_of_lookup h
  have hlt : (c.others key).length < c.entries.length :=
    List.length_filter_lt_length_iff_exists.mpr ⟨_, hentry, by simp⟩
  exact hlt

/-! ## Looking up, building and looking up again -/

theorem get?_of_lookup (h : c.lookup? key = some value) :
    c.get? key = some (value, c.touch key value) := by
  rw [get?, h, Option.map_some]

theorem get?_of_miss (h : c.lookup? key = none) : c.get? key = none := by
  rw [get?, h, Option.map_none]

/-- What comes of the outcome of a build: a failure leaves the cache alone, what is there by then
counts more than what was built, and otherwise this is put in. -/
def settle (c : Cache α) (key : String) : Except ε α → Except ε α × Cache α
  | .error err => (.error err, c)
  | .ok built =>
    match c.lookup? key with
    | some value => (.ok value, c.touch key value)
    | none => (.ok built, c.insert key built)

section
variable {built : α} {outcome : Except ε α}

theorem settle_found (h : c.lookup? key = some value) :
    c.settle key (.ok built : Except ε α) = (.ok value, c.touch key value) := by
  rw [settle, h]

theorem settle_missed (h : c.lookup? key = none) :
    c.settle key (.ok built : Except ε α) = (.ok built, c.insert key built) := by
  rw [settle, h]

/-- A value that comes of a build stands in the cache. -/
theorem lookup?_settle (h : (c.settle key outcome).1 = .ok value) :
    (c.settle key outcome).2.lookup? key = some value := by
  cases outcome with
  | error err => cases h
  | ok built =>
      cases hfound : c.lookup? key with
      | some found =>
          rw [settle_found hfound] at h ⊢
          cases h
          rw [lookup?_touch, if_pos rfl]
      | none =>
          rw [settle_missed hfound] at h ⊢
          cases h
          exact lookup?_insert_self c key value

end

section
variable {slot : Slot σ α} {build : σ → Except ε α × σ} {s : σ}

theorem getOrBuild_hit (h : (slot.read s).lookup? key = some value) :
    getOrBuild slot key build s = (.ok value, slot.write ((slot.read s).touch key value) s) := by
  rw [getOrBuild, get?_of_lookup h]

theorem getOrBuild_miss (hslot : ∀ s, slot.write (slot.read s) s = s)
    (h : (slot.read s).lookup? key = none) :
    getOrBuild slot key build s =
      (((slot.read (build s).2).settle key (build s).1).1,
        slot.write ((slot.read (build s).2).settle key (build s).1).2 (build s).2) := by
  rw [getOrBuild, get?_of_miss h]
  cases build s with
  | mk outcome s' =>
      cases outcome with
      | error err => exact congrArg (Except.error err, ·) (hslot s').symm
      | ok built =>
          simp only
          cases hfound : (slot.read s').lookup? key with
          | some value => rw [get?_of_lookup hfound, settle_found hfound]
          | none => rw [get?_of_miss hfound, settle_missed hfound]

end

end Cache

end TreeQuery
