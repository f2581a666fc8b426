import Mathlib.Data.List.Dedup
import TreeQuery.Proofs.Cache.Moments

/-!
Which texts a cache holds. A look-up that finds its text and a build that gives a value are uses;
texts that are missed and builds that fail are not. Whatever is done with a cache, it holds the
texts used last, as many as its policy has room for, and they stand in the order of their last uses.
-/
namespace TreeQuery

/-! ## What a policy has room for -/

namespace CachePolicy

/-- Of a list, what a policy has room for. -/
def keep {β : Type} (policy : CachePolicy) (xs : List β) : List β :=
  match policy with
  | .unbounded => xs
  | .bounded capacity _ => xs.take capacity

variable {β γ : Type} {policy : CachePolicy} {xs : List β}

theorem allows_length_keep : policy.Allows (policy.keep xs).length := by
  cases policy with
  | unbounded => trivial
  | bounded capacity positive => exact List.length_take_le capacity xs

theorem keep_of_allows (h : policy.Allows xs.length) : policy.keep xs = xs := by
  cases policy with
  | unbounded => rfl
  | bounded capacity positive => exact List.take_of_length_le h

theorem sublist_keep : (policy.keep xs).Sublist xs := by
  cases policy with
  | unbounded => exact .refl xs
  | bounded capacity positive => exact List.take_sublist capacity xs

theorem map_keep (f : β → γ) : (policy.keep xs).map f = policy.keep (xs.map f) := by
  cases policy with
  | unbounded => rfl
  | bounded capacity positive => exact List.map_take

theorem keep_nil : policy.keep ([] : List β) = [] := by
  cases policy with
  | unbounded => rfl
  | bounded capacity positive => exact List.take_nil

end CachePolicy

/-! ## Texts in the order of their last uses -/

/-- A text that is used again goes to the end. -/
theorem dedup_concat (texts : List String) (key : String) :
    (texts ++ [key]).dedup = texts.dedup.filter (· != key) ++ [key] := by
  induction texts with
  | nil => rfl
  | cons text texts ih =>
      rw [List.cons_append]
      by_cases hlater : text ∈ texts
      · rw [List.dedup_cons_of_mem (List.mem_append_left _ hlater), ih,
          List.dedup_cons_of_mem hlater]
      · rw [List.dedup_cons_of_notMem hlater, List.filter_cons]
        by_cases hkey : text = key
        · rw [hkey, List.dedup_cons_of_mem (by simp), ih]
          simp
        · rw [List.dedup_cons_of_notMem (by simp [hlater, hkey]), ih]
          simp [hkey]

/-- Of distinct texts at most one is left out, so one more is enough to fill the room. -/
theorem take_filter_ne {n : Nat} {key : String} {texts : List String} (h : texts.Nodup) :
    ((texts.take (n + 1)).filter (· != key)).take n = (texts.filter (· != key)).take n := by
  induction texts generalizing n with
  | nil => rw [List.take_nil]
  | cons text texts ih =>
      obtain ⟨hnew, hrest⟩ := List.nodup_cons.mp h
      rw [List.take_succ_cons]
      by_cases hkey : text = key
      · subst hkey
        have hall : ∀ t ∈ texts, (t != text) = true := by
          intro t ht
          simpa using fun heq : t = text => hnew (heq ▸ ht)
        rw [List.filter_cons_of_neg (by simp), List.filter_cons_of_neg (by simp),
          List.filter_eq_self.mpr hall,
          List.filter_eq_self.mpr fun t ht => hall t (List.mem_of_mem_take ht), List.take_take,
          Nat.min_self]
      · rw [List.filter_cons_of_pos (by simpa using hkey),
          List.filter_cons_of_pos (by simpa using hkey)]
        cases n with
        | zero => rfl
        | succ n => rw [List.take_succ_cons, List.take_succ_cons, ih hrest]

/-- A text at the front and what there is room for of the others: what was left out before does not
come back. -/
theorem CachePolicy.keep_cons_filter {policy : CachePolicy} {key : String} {texts : List String}
    (h : texts.Nodup) :
    policy.keep (key :: (policy.keep texts).filter (· != key)) =
      policy.keep (key :: texts.filter (· != key)) := by
  cases policy with
  | unbounded => rfl
  | bounded capacity positive =>
      obtain ⟨n, rfl⟩ := Nat.exists_eq_succ_of_ne_zero (Nat.ne_of_gt positive)
      simp only [keep, Nat.succ_eq_add_one, List.take_succ_cons, take_filter_ne h]

namespace Cache

variable {α ε : Type} {c : Cache α} {key : String} {value : α} {past : List String}

/-- The texts of the entries, the one last used first. -/
def keys (c : Cache α) : List String := c.entries.map (·.1)

theorem keys_touch (c : Cache α) (key : String) (value : α) :
    (c.touch key value).keys = key :: c.keys.filter (· != key) := by
  rw [keys, touch, List.map_cons, others, keys, List.filter_map]
  rfl

theorem trim_eq (c : Cache α) : c.trim = { c with entries := c.policy.keep c.entries } := by
  obtain ⟨policy, entries⟩ := c
  cases policy <;> rfl

theorem keys_trim (c : Cache α) : c.trim.keys = c.policy.keep c.keys := by
  rw [trim_eq, keys, CachePolicy.map_keep, keys]

theorem trim_of_allows (h : c.policy.Allows c.size) : c.trim = c := by
  rw [trim_eq, CachePolicy.keep_of_allows h]

theorem insert_of_unbounded (h : c.policy = .unbounded) (key : String) (value : α) :
    c.insert key value = c.touch key value := by
  have hpolicy : (c.touch key value).policy = .unbounded := h
  refine trim_of_allows ?_
  rw [hpolicy]
  trivial

theorem isSome_lookup?_iff : (c.lookup? key).isSome ↔ key ∈ c.keys := by
  rw [lookup?, List.lookup_isSome_iff, keys, List.mem_map]
  exact exists_congr fun entry => and_congr_right fun _ => beq_iff_eq.trans eq_comm

/-- A change leaves one entry for each text. -/
theorem Change.nodup_keys {c' : Cache α} (h : Change c c') (hc : c.keys.Nodup) :
    c'.keys.Nodup := by
  have htouch : ∀ (key : String) (value : α), (c.touch key value).keys.Nodup := by
    intro key value
    rw [keys_touch]
    exact List.nodup_cons.mpr ⟨by simp, hc.filter _⟩
  cases h with
  | stay => exact hc
  | use key value => exact htouch key value
  | put key value =>
      rw [insert, keys_trim]
      exact (htouch key value).sublist CachePolicy.sublist_keep
  | clear => exact .nil

/-! ## Uses -/

mutual

/-- The texts used since a cache was last cleared, in the order of their uses: those used before,
and those of a use with its answer. -/
def used (past : List String) : Action ε α → Answer ε α → List String
  | .get key, .found _ (some _) => past ++ [key]
  | .build key inner _, .built _ (.ok _) answers => usedAll past inner answers ++ [key]
  | .build _ inner _, .built _ (.error _) answers => usedAll past inner answers
  | .clear, _ => []
  | _, _ => past

/-- The same after several uses. -/
def usedAll (past : List String) : List (Action ε α) → List (Answer ε α) → List String
  | action :: actions, answer :: answers => usedAll (used past action answer) actions answers
  | _, _ => past

end

/-- A cache holds the texts used last, the latest first, as many as it has room for. -/
def Latest (c : Cache α) (past : List String) : Prop := c.keys = c.policy.keep past.dedup.reverse

theorem latest_clear : c.clear.Latest [] := CachePolicy.keep_nil.symm

theorem Latest.allows (h : c.Latest past) : c.policy.Allows c.size := by
  have hlength : c.size = (c.policy.keep past.dedup.reverse).length := by
    rw [← h, keys, List.length_map, size]
  rw [hlength]
  exact CachePolicy.allows_length_keep

theorem Latest.put (h : c.Latest past) (key : String) (value : α) :
    (c.insert key value).Latest (past ++ [key]) := by
  have hpolicy : (c.insert key value).policy = c.policy := policy_trim (c.touch key value)
  have hdedup : (past ++ [key]).dedup.reverse =
      key :: past.dedup.reverse.filter (· != key) := by
    rw [dedup_concat, List.reverse_concat, List.filter_reverse]
  rw [Latest, hpolicy, insert, keys_trim, keys_touch, h, hdedup]
  exact CachePolicy.keep_cons_filter (List.nodup_reverse.mpr past.nodup_dedup)

/-- A use of an entry drives nothing out, so it is as if the entry had been put in again. -/
theorem Latest.use (h : c.Latest past) (hit : c.lookup? key = some value) :
    (c.touch key value).Latest (past ++ [key]) := by
  have hfits : (c.touch key value).trim = c.touch key value :=
    trim_of_allows (h.allows.mono (size_touch_le hit))
  rw [← hfits]
  exact h.put key value

mutual

/-- One use: the cache holds the latest texts before it and after it. -/
theorem Latest.run {c : Cache α} {past : List String} (h : c.Latest past) (action : Action ε α) :
    (run c action).2.Latest (used past action (run c action).1) := by
  match action with
  | .clear => exact latest_clear
  | .get key =>
      rw [Cache.run]
      cases hfound : c.lookup? key with
      | some value =>
          rw [get?_of_lookup hfound]
          exact h.use hfound
      | none =>
          rw [get?_of_miss hfound]
          exact h
  | .build key inner outcome =>
      cases hfound : c.lookup? key with
      | some value =>
          rw [run_build_hit hfound]
          have hinner : usedAll past inner ([] : List (Answer ε α)) = past := by
            cases inner <;> rfl
          rw [used, hinner]
          exact h.use hfound
      | none =>
          rw [run_build_miss hfound]
          have hinner := h.runAll inner
          cases outcome with
          | error err => exact hinner
          | ok built =>
              cases hlater : (Cache.runAll c inner).2.lookup? key with
              | some value =>
                  rw [settle_found hlater]
                  exact hinner.use hlater
              | none =>
                  rw [settle_missed hlater]
                  exact hinner.put key built

/-- Uses one after the other. -/
theorem Latest.runAll {c : Cache α} {past : List String} (h : c.Latest past)
    (actions : List (Action ε α)) :
    (runAll c actions).2.Latest (usedAll past actions (runAll c actions).1) := by
  match actions with
  | [] => exact h
  | action :: actions => exact (h.run action).runAll actions

end

/-- Whatever is done with a cache of a capacity, the texts it holds are the latest of the texts used
since it was last cleared, each of them counted once: so many as the capacity says, or all of them,
in the order of their last uses. These are the texts that a look-up finds. A use is a look-up that
finds its text or a build that gives a value, those that other builds make included. -/
theorem keys_runAll (capacity : Nat) (positive : 0 < capacity) (actions : List (Action ε α)) :
    let (answers, c) := runAll (.empty (.bounded capacity positive)) actions
    let latest := (usedAll [] actions answers).dedup.reverse.take capacity
    c.keys = latest ∧ ∀ key, (c.lookup? key).isSome ↔ key ∈ latest := by
  have hempty : (Cache.empty (.bounded capacity positive) : Cache α).Latest [] :=
    CachePolicy.keep_nil.symm
  have hafter := hempty.runAll actions
  have hlast := List.mem_of_getLast?
    (getLast?_moments (.empty (.bounded capacity positive)) actions)
  rw [Latest, (allows_of_mem_moments hempty.allows _ hlast).1] at hafter
  refine ⟨hafter, fun key => ?_⟩
  rw [isSome_lookup?_iff, hafter]
  rfl

/-- Room for two texts: one that was used again stays, and neither a text that is missed nor a build
that fails drives anything out. -/
theorem keys_runAll_full :
    let actions : List (Action String Nat) :=
      [.build "a" [] (.ok 1), .clear, .build "a" [] (.ok 2), .build "b" [] (.ok 3), .get "a",
        .get "z", .build "c" [] (.error "late"), .build "c" [] (.ok 4)]
    let (answers, c) := runAll (.empty (.bounded 2 Nat.two_pos)) actions
    0 < 2 ∧ usedAll [] actions answers = ["a", "b", "a", "c"] ∧ c.keys = ["c", "a"] ∧
      ∀ key, (c.lookup? key).isSome ↔ key ∈ ["c", "a"] := by
  intro actions
  exact ⟨Nat.two_pos, rfl, keys_runAll 2 Nat.two_pos actions⟩

end Cache

end TreeQuery
