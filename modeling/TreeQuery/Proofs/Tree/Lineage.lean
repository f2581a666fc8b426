import TreeQuery.Tree.View

/-!
The way up in a tree: what is above a node, and the chain of its parents, nearest first. Nothing
more than parents with smaller numbers is asked of the tree.
-/
namespace TreeQuery.View

/-! ## Following links -/

theorem chain_eq_drop {next? : NodeId → Option NodeId} {l : List NodeId}
    (h : ∀ i id, l[i]? = some id → next? id = l[i + 1]?) (n i : Nat) (hn : l.length ≤ i + n) :
    chain next? n l[i]? = l.drop i := by
  induction n generalizing i with
  | zero => rw [chain, List.drop_eq_nil_of_le (by omega)]
  | succ n ih =>
      cases hi : l[i]? with
      | none =>
          rw [chain.eq_2 _ _ (by simp), List.drop_eq_nil_of_le (List.getElem?_eq_none_iff.mp hi)]
      | some id =>
          obtain ⟨hlt, rfl⟩ := List.getElem?_eq_some_iff.mp hi
          rw [chain, h i _ hi, ih (i + 1) (by omega), List.drop_eq_getElem_cons hlt]

/-- Following links back from a place in a list. -/
theorem chain_back {prev? : NodeId → Option NodeId} {l : List NodeId}
    (h : ∀ i id, l[i]? = some id → prev? id = if i = 0 then none else l[i - 1]?)
    (n i : Nat) (hn : i ≤ n) (hi : i ≤ l.length) :
    chain prev? n (if i = 0 then none else l[i - 1]?) = (l.take i).reverse := by
  induction i generalizing n with
  | zero => cases n <;> rfl
  | succ i ih =>
      obtain ⟨n, rfl⟩ : ∃ m, n = m + 1 := ⟨n - 1, by omega⟩
      have hget : l[i]? = some l[i] := List.getElem?_eq_getElem hi
      rw [if_neg (Nat.succ_ne_zero i), Nat.add_sub_cancel, hget, chain, h i _ hget,
        ih n (by omega) (by omega), List.take_add_one, hget, Option.toList, List.reverse_append]
      rfl

/-! ## What is above -/

/-- The first node is on the chain of parents of the second. -/
inductive IsAbove (v : View) (a : NodeId) : NodeId → Prop where
  | parent {x : NodeId} (h : v.parent? x = some a) : IsAbove v a x
  | up {x p : NodeId} (h : v.parent? x = some p) (above : IsAbove v a p) : IsAbove v a x

/-- The chain of parents of a node, nearest first. -/
inductive Lineage (v : View) : NodeId → List NodeId → Prop where
  | top {x : NodeId} (h : v.parent? x = none) : Lineage v x []
  | up {x p : NodeId} {above : List NodeId} (h : v.parent? x = some p) (hp : Lineage v p above) :
      Lineage v x (p :: above)

variable {v w : View} {a x y p : Nat} {l : List NodeId}

theorem isAbove_iff : v.IsAbove a x ↔ ∃ p, v.parent? x = some p ∧ (a = p ∨ v.IsAbove a p) := by
  constructor
  · rintro (h | ⟨h, above⟩)
    · exact ⟨a, h, .inl rfl⟩
    · exact ⟨_, h, .inr above⟩
  · rintro ⟨p, h, rfl | above⟩
    · exact .parent h
    · exact .up h above

theorem isAbove_iff_of_parent (h : v.parent? x = some p) :
    v.IsAbove a x ↔ a = p ∨ v.IsAbove a p := by
  rw [isAbove_iff, h]
  simp

theorem not_isAbove_of_parent (h : v.parent? x = none) : ¬ v.IsAbove a x := by
  rw [isAbove_iff, h]
  simp

theorem IsAbove.trans (hax : v.IsAbove a x) (hxy : v.IsAbove x y) : v.IsAbove a y := by
  induction hxy with
  | parent h => exact .up h hax
  | up h _ ih => exact .up h ih

/-- The step below `a` on the way to `x`. -/
theorem isAbove_iff_child :
    v.IsAbove a x ↔ ∃ child, v.parent? child = some a ∧ (x = child ∨ v.IsAbove child x) := by
  constructor
  · intro h
    induction h with
    | @parent x h => exact ⟨x, h, .inl rfl⟩
    | @up x p h _ ih =>
        obtain ⟨child, hchild, rfl | above⟩ := ih
        · exact ⟨p, hchild, .inr (.parent h)⟩
        · exact ⟨child, hchild, .inr (.up h above)⟩
  · rintro ⟨child, hchild, rfl | above⟩
    · exact .parent hchild
    · exact (IsAbove.parent hchild).trans above

theorem Lineage.mem_iff (h : v.Lineage x l) : a ∈ l ↔ v.IsAbove a x := by
  induction h with
  | top h => simp [not_isAbove_of_parent h]
  | up h _ ih => rw [isAbove_iff_of_parent h, List.mem_cons, ih]

theorem Lineage.getElem? (h : v.Lineage x l) :
    ∀ i id, (x :: l)[i]? = some id → v.parent? id = (x :: l)[i + 1]? := by
  induction h with
  | top h => rintro (_ | i) id hid <;> simp at hid; subst hid; exact h
  | up h _ ih =>
      rintro (_ | i) id hid
      · simp only [List.getElem?_cons_zero, Option.some.injEq] at hid
        subst hid
        exact h
      · exact ih i id hid

theorem Lineage.ancestors (h : v.Lineage x l) (hsize : l.length ≤ v.size) : v.ancestors x = l := by
  have hchain := chain_eq_drop h.getElem? v.size 1 (by simp only [List.length_cons]; omega)
  simpa [View.ancestors, ← h.getElem? 0 x rfl] using hchain

/-! ## Parents with smaller numbers -/

section
variable (hlt : ∀ id p : Nat, v.parent? id = some p → p < id)
include hlt

theorem IsAbove.lt (h : v.IsAbove a x) : a < x := by
  induction h with
  | parent h => exact hlt _ _ h
  | up h _ ih => exact Nat.lt_trans ih (hlt _ _ h)

theorem exists_lineage (x : Nat) : ∃ l, v.Lineage x l := by
  induction x using Nat.strongRecOn with
  | ind x ih =>
      cases hx : v.parent? x with
      | none => exact ⟨[], .top hx⟩
      | some p =>
          obtain ⟨l, hl⟩ := ih p (hlt _ _ hx)
          exact ⟨p :: l, .up hx hl⟩

theorem Lineage.pairwise (h : v.Lineage x l) : (x :: l).Pairwise (· > ·) := by
  induction h with
  | top => simp
  | @up x p above h hp ih =>
      refine List.pairwise_cons.mpr ⟨fun a ha => ?_, ih⟩
      have hpx := hlt _ _ h
      rcases List.mem_cons.mp ha with rfl | ha
      · exact hpx
      · exact Nat.lt_trans ((hp.mem_iff.mp ha).lt hlt) hpx

theorem Lineage.length_le (h : v.Lineage x l) : l.length ≤ x := by
  induction h with
  | top => simp
  | up h _ ih =>
      have hpx := hlt _ _ h
      simp only [List.length_cons]
      omega

/-- The chain of parents does not depend on the nodes behind a node. -/
theorem isAbove_congr {n : Nat} (hsame : ∀ id < n, w.parent? id = v.parent? id) (hx : x < n) :
    w.IsAbove a x ↔ v.IsAbove a x := by
  induction x using Nat.strongRecOn with
  | ind x ih =>
      rw [isAbove_iff, isAbove_iff, hsame x hx]
      refine exists_congr fun p => and_congr_right fun hp => or_congr_right ?_
      have hpx := hlt _ _ hp
      exact ih p hpx (by omega)

theorem Lineage.congr {n : Nat} (hsame : ∀ id < n, w.parent? id = v.parent? id) (hx : x < n)
    (h : v.Lineage x l) : w.Lineage x l := by
  induction h with
  | top h => exact .top ((hsame _ hx).trans h)
  | @up x p above h _ ih =>
      have hpx := hlt x p h
      exact .up ((hsame x hx).trans h) (ih (by omega))

end

end TreeQuery.View
