/-!
Strictly ascending lists of numbers. Such a list is known by its members alone.
-/
namespace TreeQuery

/-- Strictly ascending, so without repetition. -/
abbrev Ascending (l : List Nat) : Prop := l.Pairwise (· < ·)

namespace Ascending

variable {l l₁ l₂ : List Nat}

theorem nodup (h : Ascending l) : l.Nodup := h.imp Nat.ne_of_lt

theorem ext (h₁ : Ascending l₁) (h₂ : Ascending l₂) (h : ∀ x, x ∈ l₁ ↔ x ∈ l₂) : l₁ = l₂ := by
  refine List.Perm.eq_of_pairwise (fun a b _ _ hab hba => ?_) h₁ h₂
    ((List.perm_ext_iff_of_nodup h₁.nodup h₂.nodup).mpr h)
  exact absurd hab (Nat.lt_asymm hba)

theorem append (h₁ : Ascending l₁) (h₂ : Ascending l₂) (h : ∀ x ∈ l₁, ∀ y ∈ l₂, x < y) :
    Ascending (l₁ ++ l₂) :=
  List.pairwise_append.mpr ⟨h₁, h₂, h⟩

theorem filter (h : Ascending l) (q : Nat → Bool) : Ascending (l.filter q) :=
  List.Pairwise.filter q h

theorem getElem?_lt {i j x y : Nat} (h : Ascending l) (hi : l[i]? = some x) (hj : l[j]? = some y)
    (hij : i < j) : x < y := by
  obtain ⟨hil, rfl⟩ := List.getElem?_eq_some_iff.mp hi
  obtain ⟨hjl, rfl⟩ := List.getElem?_eq_some_iff.mp hj
  exact List.pairwise_iff_getElem.mp h i j hil hjl hij

theorem getLast?_eq_some_iff {i x : Nat} (h : Ascending l) (hi : l[i]? = some x) :
    l.getLast? = some x ↔ i + 1 = l.length := by
  have hlt := (List.getElem?_eq_some_iff.mp hi).1
  rw [List.getLast?_eq_getElem?]
  constructor
  · intro hlast
    rcases Nat.lt_or_ge i (l.length - 1) with hij | hij
    · exact absurd (h.getElem?_lt hi hlast hij) (Nat.lt_irrefl x)
    · omega
  · intro heq
    rw [← heq, Nat.add_sub_cancel, hi]

/-! ## Parts of a list -/

theorem cut {i x : Nat} (h : Ascending l) (hi : l[i]? = some x) (y : Nat) :
    (y ∈ l.take i → y < x) ∧ (y ∈ l.drop (i + 1) → x < y) ∧
      (y ∈ l ↔ y ∈ l.take i ∨ y = x ∨ y ∈ l.drop (i + 1)) := by
  obtain ⟨hlt, rfl⟩ := List.getElem?_eq_some_iff.mp hi
  have hsplit : l = l.take i ++ l[i] :: l.drop (i + 1) := by
    rw [← List.drop_eq_getElem_cons hlt, List.take_append_drop]
  have hcut := h
  rw [hsplit] at hcut
  obtain ⟨_, hdrop, hacross⟩ := List.pairwise_append.mp hcut
  refine ⟨fun hy => hacross y hy _ List.mem_cons_self, (List.pairwise_cons.mp hdrop).1 y, ?_⟩
  rw [← List.mem_cons, ← List.mem_append, ← hsplit]

theorem mem_drop_iff {i x y : Nat} (h : Ascending l) (hi : l[i]? = some x) :
    y ∈ l.drop (i + 1) ↔ y ∈ l ∧ x < y := by
  obtain ⟨htake, hdrop, hmem⟩ := h.cut hi y
  constructor
  · intro hy
    exact ⟨hmem.mpr (.inr (.inr hy)), hdrop hy⟩
  · rintro ⟨hy, hlt⟩
    rcases hmem.mp hy with hy | rfl | hy
    · exact absurd hlt (Nat.lt_asymm (htake hy))
    · exact absurd hlt (Nat.lt_irrefl y)
    · exact hy

theorem mem_take_iff {i x y : Nat} (h : Ascending l) (hi : l[i]? = some x) :
    y ∈ l.take i ↔ y ∈ l ∧ y < x := by
  obtain ⟨htake, hdrop, hmem⟩ := h.cut hi y
  constructor
  · intro hy
    exact ⟨hmem.mpr (.inl hy), htake hy⟩
  · rintro ⟨hy, hlt⟩
    rcases hmem.mp hy with hy | rfl | hy
    · exact hy
    · exact absurd hlt (Nat.lt_irrefl y)
    · exact absurd hlt (Nat.lt_asymm (hdrop hy))

theorem takeWhile_lt (h : Ascending l) (x : Nat) :
    l.takeWhile (fun y => decide (y < x)) = l.filter fun y => decide (y < x) := by
  induction l with
  | nil => rfl
  | cons a l ih =>
      obtain ⟨ha, hl⟩ := List.pairwise_cons.mp h
      by_cases hax : a < x
      · rw [List.takeWhile_cons_of_pos (by simpa), List.filter_cons_of_pos (by simpa), ih hl]
      · rw [List.takeWhile_cons_of_neg (by simpa using hax),
          List.filter_cons_of_neg (by simpa using hax),
          List.filter_eq_nil_iff.mpr]
        intro y hy hyx
        exact hax (Nat.lt_trans (ha y hy) (of_decide_eq_true hyx))

end Ascending

end TreeQuery
