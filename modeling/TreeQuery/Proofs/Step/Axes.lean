import Mathlib.Data.List.Perm.Subperm
import TreeQuery.Proofs.Tree.Building
import TreeQuery.Proofs.Tree.Traversal
import TreeQuery.Step.Axes

/-!
Where the axes lead. Each axis lists the nodes that stand in one relation to a node, forward axes
in document order and reverse axes against it; and every node of the tree is on exactly one of the
axes for the node itself, what is above, below, behind and in front of it.
-/
namespace TreeQuery

/-- Two nodes in the order in which positions count along an axis. -/
def Axis.Before (axis : Axis) (a b : NodeId) : Prop := if axis.isReverse then b < a else a < b

theorem Axis.Before.asymm {axis : Axis} {a b : Nat} (hab : axis.Before a b) :
    ¬ axis.Before b a := by
  cases axis <;> exact Nat.lt_asymm hab

end TreeQuery

namespace TreeQuery.Document

variable {d : Document} {a e p x y : Nat} {l : List Nat}

/-- Two nodes of the tree with one parent. -/
def Siblings (d : Document) (x y : NodeId) : Prop :=
  d.InTree x ∧ d.InTree y ∧ ∃ p, d.view.parent? x = some p ∧ d.view.parent? y = some p

theorem siblings_iff (htree : d.InTree x) (hp : d.view.parent? x = some p) :
    d.Siblings x y ↔ d.InTree y ∧ d.view.parent? y = some p := by
  rw [Siblings, and_iff_right htree, hp]
  refine and_congr_right fun _ => ⟨?_, fun hy => ⟨p, rfl, hy⟩⟩
  rintro ⟨_, hq, hy⟩
  rw [hq, hy]

theorem not_siblings (hp : d.view.parent? x = none) : ¬ d.Siblings x y := by
  rintro ⟨_, _, q, hq, _⟩
  rw [hp] at hq
  cases hq

/-- What the list of an axis from a node has to be. -/
def Reaches (d : Document) (x : NodeId) : Axis → List NodeId → Prop
  | .child, l => Lists l fun y => d.InTree y ∧ d.view.parent? y = some x
  | .descendant, l => Lists l fun y => d.InTree y ∧ d.view.IsAbove x y
  | .descendantOrSelf, l =>
    ∃ below, l = x :: below ∧ Lists below fun y => d.InTree y ∧ d.view.IsAbove x y
  | .parent, l => l = (d.view.parent? x).toList
  | .ancestor, l => d.view.Lineage x l
  | .ancestorOrSelf, l => ∃ above, l = x :: above ∧ d.view.Lineage x above
  | .followingSibling, l => Lists l fun y => d.Siblings x y ∧ x < y
  | .precedingSibling, l => Lists l.reverse fun y => d.Siblings x y ∧ y < x
  | .following, l => Lists l fun y => d.InTree y ∧ x < y ∧ ¬ d.view.IsAbove x y
  | .preceding, l => Lists l.reverse fun y => d.InTree y ∧ y < x ∧ ¬ d.view.IsAbove y x
  | .self, l => l = [x]
  | .attributes, l => Lists l fun y => d.kind y = .attr ∧ d.view.parent? y = some x
  | .namespaces, l => Lists l fun y => d.kind y = .binding ∧ d.view.parent? y = some x

/-- The second node is on an axis of the first one. -/
def OnAxis (d : Document) (x : NodeId) : Axis → NodeId → Prop
  | .child, y => d.InTree y ∧ d.view.parent? y = some x
  | .descendant, y => d.InTree y ∧ d.view.IsAbove x y
  | .descendantOrSelf, y => y = x ∨ d.InTree y ∧ d.view.IsAbove x y
  | .parent, y => d.view.parent? x = some y
  | .ancestor, y => d.view.IsAbove y x
  | .ancestorOrSelf, y => y = x ∨ d.view.IsAbove y x
  | .followingSibling, y => d.Siblings x y ∧ x < y
  | .precedingSibling, y => d.Siblings x y ∧ y < x
  | .following, y => d.InTree y ∧ x < y ∧ ¬ d.view.IsAbove x y
  | .preceding, y => d.InTree y ∧ y < x ∧ ¬ d.view.IsAbove y x
  | .self, y => y = x
  | .attributes, y => d.kind y = .attr ∧ d.view.parent? y = some x
  | .namespaces, y => d.kind y = .binding ∧ d.view.parent? y = some x

namespace WellBuilt

variable (h : d.WellBuilt)
include h

/-! ## Siblings -/

theorem siblingsFrom_eq_nil (hp : d.view.parent? x = none) :
    d.view.siblingsFrom d.view.nextSibling? x = [] ∧
      d.view.siblingsFrom d.view.prevSibling? x = [] := by
  obtain ⟨hnext, hprev⟩ := h.unlinked x (.inl hp)
  rw [View.siblingsFrom, View.siblingsFrom, hprev, show d.view.nextSibling? x = none from hnext]
  cases d.view.size <;> exact ⟨rfl, rfl⟩

theorem siblingsFrom_of_parent (htree : d.InTree x) (hp : d.view.parent? x = some p) :
    ∃ i : Nat, (d.offspring p)[i]? = some x ∧
      d.view.siblingsFrom d.view.nextSibling? x = (d.offspring p).drop (i + 1) ∧
      d.view.siblingsFrom d.view.prevSibling? x = ((d.offspring p).take i).reverse := by
  obtain ⟨i, hi⟩ := List.getElem?_of_mem (mem_offspring_iff.mpr ⟨htree, hp⟩)
  have hlt := (List.getElem?_eq_some_iff.mp hi).1
  have hlength : (d.offspring p).length ≤ d.size := length_offspring_le
  have hnext : d.view.nextSibling? x = (d.offspring p)[i + 1]? := (h.linked p).next i x hi
  refine ⟨i, hi, ?_, ?_⟩
  · rw [View.siblingsFrom, hnext]
    exact View.chain_eq_drop (h.linked p).next d.size (i + 1) (by omega)
  · rw [View.siblingsFrom, (h.linked p).prev i x hi]
    exact View.chain_back (h.linked p).prev d.size i (by omega) (Nat.le_of_lt hlt)

theorem lists_followingSiblings (htree : d.InTree x) :
    Lists (d.view.siblingsFrom d.view.nextSibling? x) fun y => d.Siblings x y ∧ x < y := by
  cases hp : d.view.parent? x with
  | none =>
      rw [(h.siblingsFrom_eq_nil hp).1]
      exact .nil fun y hy => not_siblings hp hy.1
  | some p =>
      obtain ⟨i, hi, hnext, _⟩ := h.siblingsFrom_of_parent htree hp
      rw [hnext]
      refine ⟨ascending_offspring.drop, fun y => ?_⟩
      rw [ascending_offspring.mem_drop_iff hi, mem_offspring_iff, siblings_iff htree hp]

theorem lists_precedingSiblings (htree : d.InTree x) :
    Lists (d.view.siblingsFrom d.view.prevSibling? x).reverse fun y =>
      d.Siblings x y ∧ y < x := by
  cases hp : d.view.parent? x with
  | none =>
      rw [(h.siblingsFrom_eq_nil hp).2]
      exact .nil fun y hy => not_siblings hp hy.1
  | some p =>
      obtain ⟨i, hi, _, hprev⟩ := h.siblingsFrom_of_parent htree hp
      rw [hprev, List.reverse_reverse]
      refine ⟨ascending_offspring.take, fun y => ?_⟩
      rw [ascending_offspring.mem_take_iff hi, mem_offspring_iff, siblings_iff htree hp]

/-! ## What is behind a node -/

theorem lists_behind (htree : d.InTree x) (hp : d.view.parent? x = some p) :
    Lists (d.view.behind x) fun y =>
      d.InTree y ∧ x < y ∧ ¬ d.view.IsAbove x y ∧ d.view.IsAbove p y := by
  have hsiblings : Lists (d.view.siblingsFrom d.view.nextSibling? x) fun c =>
      (d.InTree c ∧ d.view.parent? c = some p) ∧ x < c :=
    (h.lists_followingSiblings htree).congr fun c => and_congr_left' (siblings_iff htree hp)
  refine ⟨h.ascending_flatMap hsiblings.ascending
    (fun c hc => ((hsiblings.mem_iff c).mp hc).1.2) (fun _ _ => h.lists_descendants.ascending)
    (fun c y hy => ((h.lists_descendants.mem_iff y).mp hy).2), fun y => ?_⟩
  rw [View.behind, List.mem_flatMap]
  constructor
  · rintro ⟨c, hc, hy⟩
    obtain ⟨⟨hctree, hcp⟩, hxc⟩ := (hsiblings.mem_iff c).mp hc
    rw [List.mem_cons, h.lists_descendants.mem_iff] at hy
    have hcy : y = c ∨ d.view.IsAbove c y := hy.imp_right And.right
    have hnot : ¬ y < c := by
      rcases hcy with rfl | hcy
      · exact Nat.lt_irrefl y
      · exact Nat.lt_asymm (h.isAbove_lt hcy)
    refine ⟨?_, Nat.lt_of_lt_of_le hxc (Nat.le_of_not_lt hnot), fun hxy => hnot ?_,
      View.isAbove_iff_child.mpr ⟨c, hcp, hcy⟩⟩
    · rcases hy with rfl | hy
      · exact hctree
      · exact hy.1
    · exact h.lt_of_not_isAbove (.inr hxy) hxc (h.not_isAbove_of_sibling hp hcp)
  · rintro ⟨hytree, hxy, hbelow, hpy⟩
    obtain ⟨c, hcp, hcy⟩ := View.isAbove_iff_child.mp hpy
    have hctree : d.InTree c := by
      rcases hcy with rfl | hcy
      · exact hytree
      · exact h.inTree_of_isAbove hcy
    have hxc : x < c := by
      rcases Nat.lt_trichotomy x c with hlt | rfl | hgt
      · exact hlt
      · exact absurd (hcy.resolve_left (Nat.ne_of_gt hxy)) hbelow
      · have hyx := h.lt_of_not_isAbove hcy hgt (h.not_isAbove_of_sibling hcp hp)
        exact absurd hyx (Nat.lt_asymm hxy)
    refine ⟨c, (hsiblings.mem_iff c).mpr ⟨⟨hctree, hcp⟩, hxc⟩, ?_⟩
    rw [List.mem_cons, h.lists_descendants.mem_iff]
    exact hcy.imp_right (And.intro hytree)

/-- On the way up, what is behind each node follows what is behind the nodes below it. -/
theorem lists_behind_lineage (htree : d.InTree x) (hl : d.view.Lineage x l) :
    Lists ((x :: l).flatMap d.view.behind) fun y =>
      d.InTree y ∧ x < y ∧ ¬ d.view.IsAbove x y := by
  -- what is behind a node is below its parent or behind it, and the first comes before the second
  induction hl with
  | @top x hp =>
      have hnil : d.view.behind x = [] := by
        rw [View.behind, (h.siblingsFrom_eq_nil hp).1]
        rfl
      rw [List.flatMap_cons, hnil]
      refine .nil fun y hy => hy.2.2 ?_
      rw [h.eq_documentNode htree.1 hp]
      exact h.isAbove_documentNode (Nat.zero_lt_of_lt hy.2.1) hy.1.1
  | @up x p above hp _ ih =>
      have hbehind := h.lists_behind htree hp
      have houter := ih (h.inTree_of_parent hp)
      have hpx : d.view.IsAbove p x := .parent hp
      rw [List.flatMap_cons]
      refine (hbehind.append houter fun a b ha hb => ?_).congr fun y => ?_
      · exact h.lt_of_not_isAbove (.inr ha.2.2.2) hb.2.1 hb.2.2
      · constructor
        · rintro (⟨hytree, hxy, hbelow, _⟩ | ⟨hytree, hpy, hbelow⟩)
          · exact ⟨hytree, hxy, hbelow⟩
          · exact ⟨hytree, h.lt_of_not_isAbove (.inr hpx) hpy hbelow,
              fun hxy => hbelow (hpx.trans hxy)⟩
        · rintro ⟨hytree, hxy, hbelow⟩
          by_cases hpy : d.view.IsAbove p y
          · exact .inl ⟨hytree, hxy, hbelow, hpy⟩
          · exact .inr ⟨hytree, Nat.lt_trans (h.parent_lt x p hp) hxy, hpy⟩

theorem lists_behindAll (htree : d.InTree x) :
    Lists (d.view.behindAll x) fun y => d.InTree y ∧ x < y ∧ ¬ d.view.IsAbove x y :=
  h.lists_behind_lineage htree (h.lineage_ancestors htree.1)

/-- Owned nodes stand in front of all else that comes after their owner. -/
theorem owned_lt (hx : d.view.isOwned x) (hp : d.view.parent? x = some e) (htree : d.InTree y)
    (hey : e < y) : x < y := by
  obtain ⟨count, hcount⟩ := h.owned_behind e
  have howned : ∀ id : Nat, e + 1 ≤ id → id < e + 1 + count → d.view.isOwned id := by
    intro id hle hlt
    have hmem : id ∈ d.bindings e ++ d.attributes e := by
      rw [hcount, List.mem_range'_1]
      exact ⟨hle, hlt⟩
    rw [isOwned_iff]
    rcases List.mem_append.mp hmem with hid | hid
    · exact .inr ((h.mem_bindings e id).mp hid).1
    · exact .inl ((h.mem_attributes e id).mp hid).1
  have hmem : x ∈ d.bindings e ++ d.attributes e := by
    rw [List.mem_append, h.mem_bindings, h.mem_attributes]
    exact (isOwned_iff.mp hx).symm.imp (⟨·, hp⟩) (⟨·, hp⟩)
  rw [hcount, List.mem_range'_1] at hmem
  refine Nat.lt_of_not_le fun hyx => htree.2 (howned y hey ?_)
  exact Nat.lt_of_le_of_lt hyx hmem.2

theorem lists_following (hx : x < d.size) :
    Lists (d.view.following x) fun y => d.InTree y ∧ x < y ∧ ¬ d.view.IsAbove x y := by
  by_cases howned : d.view.isOwned x
  · obtain ⟨e, hex, hp⟩ : ∃ e : Nat, e < x ∧ d.view.parent? x = some e := by
      refine h.exists_parent x (Nat.pos_of_ne_zero ?_) hx
      rintro rfl
      exact h.inTree_documentNode.2 howned
    have hbehind := h.lists_behindAll (h.inTree_of_parent hp)
    rw [View.following, if_pos howned, hp]
    refine (h.lists_descendants.append hbehind fun a b ha hb => ?_).congr fun y => ?_
    · exact h.lt_of_not_isAbove (.inr ha.2) hb.2.1 hb.2.2
    · constructor
      · rintro (⟨htree, hey⟩ | ⟨htree, hey, _⟩)
        · exact ⟨htree, h.owned_lt howned hp htree (h.isAbove_lt hey),
            h.not_isAbove_of_isOwned howned⟩
        · exact ⟨htree, h.owned_lt howned hp htree hey, h.not_isAbove_of_isOwned howned⟩
      · rintro ⟨htree, hxy, _⟩
        by_cases hey : d.view.IsAbove e y
        · exact .inl ⟨htree, hey⟩
        · exact .inr ⟨htree, Nat.lt_trans hex hxy, hey⟩
  · rw [View.following, if_neg howned]
    exact h.lists_behindAll ⟨hx, howned⟩

theorem lists_preceding (hx : x < d.size) :
    Lists (d.view.preceding x).reverse fun y => d.InTree y ∧ y < x ∧ ¬ d.view.IsAbove y x := by
  have hall := h.lists_all
  rw [View.preceding, List.reverse_reverse, hall.ascending.takeWhile_lt]
  refine ⟨(hall.ascending.filter _).filter _, fun y => ?_⟩
  rw [List.mem_filter, List.mem_filter, hall.mem_iff, and_assoc]
  refine and_congr_right fun _ => and_congr (by simp) ?_
  rw [← (h.lineage_ancestors hx).mem_iff]
  simp

/-! ## Owned nodes -/

theorem lists_attributes :
    Lists (d.attributes x) fun y => d.kind y = .attr ∧ d.view.parent? y = some x := by
  refine ⟨?_, h.mem_attributes x⟩
  rw [attributes]
  split
  · exact List.pairwise_lt_range'
  · exact .nil

theorem lists_bindings :
    Lists (d.bindings x) fun y => d.kind y = .binding ∧ d.view.parent? y = some x := by
  refine ⟨?_, h.mem_bindings x⟩
  rw [bindings]
  split
  · exact List.pairwise_lt_range'
  · exact .nil

/-! ## All axes -/

omit h in
theorem lists_unlessOwned {q : Nat → Prop} (hx : x < d.size) (hq : ∀ y, q y → d.InTree x)
    (hl : d.InTree x → Lists l q) : Lists (d.view.unlessOwned x l) q := by
  rw [View.unlessOwned]
  split
  · rename_i howned
    exact .nil fun y hy => (hq y hy).2 howned
  · rename_i howned
    exact hl ⟨hx, howned⟩

omit h in
theorem reverse_unlessOwned :
    (d.view.unlessOwned x l).reverse = d.view.unlessOwned x l.reverse := by
  rw [View.unlessOwned, View.unlessOwned]
  split <;> rfl

theorem reaches_along (hx : x < d.size) (axis : Axis) : d.Reaches x axis (d.view.along axis x) := by
  cases axis with
  | child =>
      refine lists_unlessOwned hx (fun y hy => h.inTree_of_parent hy.2) fun _ => ?_
      rw [show d.view.children x = d.offspring x from h.children_eq]
      exact lists_offspring
  | descendant => exact h.lists_descendants
  | descendantOrSelf =>
      exact ⟨_, rfl, lists_unlessOwned hx (fun y hy => h.inTree_of_isAbove hy.2) fun _ =>
        h.lists_descendants⟩
  | parent => rfl
  | ancestor => exact h.lineage_ancestors hx
  | ancestorOrSelf => exact ⟨_, rfl, h.lineage_ancestors hx⟩
  | followingSibling =>
      exact lists_unlessOwned hx (fun y hy => hy.1.1) h.lists_followingSiblings
  | precedingSibling =>
      rw [Reaches, View.along, reverse_unlessOwned]
      exact lists_unlessOwned hx (fun y hy => hy.1.1) h.lists_precedingSiblings
  | following => exact h.lists_following hx
  | preceding => exact h.lists_preceding hx
  | self => rfl
  | attributes => exact h.lists_attributes
  | namespaces => exact h.lists_bindings

/-- Each axis lists its nodes in the order in which positions count. -/
theorem pairwise_along (hx : x < d.size) (axis : Axis) :
    (d.view.along axis x).Pairwise axis.Before := by
  have hreach := h.reaches_along hx axis
  cases axis with
  | child | descendant | followingSibling | following | attributes | namespaces =>
      exact hreach.ascending
  | precedingSibling | preceding => exact List.pairwise_reverse.mp hreach.ascending
  | descendantOrSelf =>
      obtain ⟨below, heq, hbelow⟩ := hreach
      rw [heq]
      exact List.pairwise_cons.mpr
        ⟨fun y hy => h.isAbove_lt ((hbelow.mem_iff y).mp hy).2, hbelow.ascending⟩
  | parent =>
      rw [show d.view.along .parent x = (d.view.parent? x).toList from hreach]
      cases d.view.parent? x <;> simp
  | ancestor => exact (List.pairwise_cons.mp (hreach.pairwise h.parent_lt)).2
  | ancestorOrSelf =>
      obtain ⟨above, heq, hl⟩ := hreach
      rw [heq]
      exact hl.pairwise h.parent_lt
  | self => exact List.pairwise_singleton _ x

theorem mem_along_iff (hx : x < d.size) (axis : Axis) :
    y ∈ d.view.along axis x ↔ d.OnAxis x axis y := by
  have hreach := h.reaches_along hx axis
  cases axis with
  | child | descendant | followingSibling | following | attributes | namespaces =>
      exact hreach.mem_iff y
  | precedingSibling | preceding => exact List.mem_reverse.symm.trans (hreach.mem_iff y)
  | descendantOrSelf =>
      obtain ⟨below, heq, hbelow⟩ := hreach
      rw [heq, List.mem_cons, hbelow.mem_iff]
      rfl
  | parent =>
      rw [show d.view.along .parent x = (d.view.parent? x).toList from hreach, Option.mem_toList]
      rfl
  | ancestor => exact hreach.mem_iff
  | ancestorOrSelf =>
      obtain ⟨above, heq, hl⟩ := hreach
      rw [heq, List.mem_cons, hl.mem_iff]
      rfl
  | self => exact List.mem_singleton

theorem nodup_along (hx : x < d.size) (axis : Axis) : (d.view.along axis x).Nodup := by
  refine (h.pairwise_along hx axis).imp fun {a b} hab heq => ?_
  subst heq
  exact hab.asymm hab

theorem lt_size_of_mem_along (hx : x < d.size) (axis : Axis) (hy : y ∈ d.view.along axis x) :
    y < d.size := by
  have habove : d.view.IsAbove y x → y < d.size := fun habove =>
    Nat.lt_trans (h.isAbove_lt habove) hx
  have hon := (h.mem_along_iff hx axis).mp hy
  cases axis with
  | child | descendant | following | preceding => exact hon.1.1
  | followingSibling | precedingSibling => exact hon.1.2.1.1
  | descendantOrSelf => exact hon.elim (fun heq => heq ▸ hx) fun hbelow => hbelow.1.1
  | parent => exact habove (.parent hon)
  | ancestor => exact habove hon
  | ancestorOrSelf => exact hon.elim (fun heq => heq ▸ hx) habove
  | self => exact hon ▸ hx
  | attributes | namespaces => exact lt_size_of_parent? hon.2

theorem length_along_le (hx : x < d.size) (axis : Axis) :
    (d.view.along axis x).length ≤ d.size := by
  have hsubset : d.view.along axis x ⊆ List.range d.size := fun y hy =>
    List.mem_range.mpr (h.lt_size_of_mem_along hx axis hy)
  simpa using ((h.nodup_along hx axis).subperm hsubset).length_le

/-! ## Axes that make up the tree -/

end WellBuilt

open Classical in
/-- The axis on which one node lies seen from another one. -/
noncomputable def place (d : Document) (x y : NodeId) : Axis :=
  if y = x then .self
  else if d.view.IsAbove y x then .ancestor
  else if d.view.IsAbove x y then .descendant
  else if x < y then .following
  else .preceding

/-- The axes that lead to each node of the tree once. -/
def partition : List Axis := [.self, .ancestor, .descendant, .following, .preceding]

namespace WellBuilt

variable (h : d.WellBuilt)
include h

theorem place_of_mem_along {axis : Axis} (htree : d.InTree x) (haxis : axis ∈ partition)
    (hy : y ∈ d.view.along axis x) : d.InTree y ∧ d.place x y = axis := by
  have hlt : ∀ {a b : Nat}, d.view.IsAbove a b → a < b := h.isAbove_lt
  rw [h.mem_along_iff htree.1] at hy
  simp only [partition, List.mem_cons, List.not_mem_nil, or_false] at haxis
  rcases haxis with rfl | rfl | rfl | rfl | rfl
  · obtain rfl : y = x := hy
    exact ⟨htree, if_pos rfl⟩
  · have habove : d.view.IsAbove y x := hy
    exact ⟨h.inTree_of_isAbove habove, by simp [place, habove, Nat.ne_of_lt (hlt habove)]⟩
  · obtain ⟨hytree, hbelow⟩ := hy
    have hnot : ¬ d.view.IsAbove y x := fun habove => Nat.lt_asymm (hlt habove) (hlt hbelow)
    exact ⟨hytree, by simp [place, hbelow, hnot, Nat.ne_of_gt (hlt hbelow)]⟩
  · obtain ⟨hytree, hxy, hbelow⟩ := hy
    have hnot : ¬ d.view.IsAbove y x := fun habove => Nat.lt_asymm (hlt habove) hxy
    exact ⟨hytree, by simp [place, hbelow, hnot, hxy, Nat.ne_of_gt hxy]⟩
  · obtain ⟨hytree, hyx, habove⟩ := hy
    have hnot : ¬ d.view.IsAbove x y := fun hbelow => Nat.lt_asymm (hlt hbelow) hyx
    exact ⟨hytree, by simp [place, habove, hnot, Nat.lt_asymm hyx, Nat.ne_of_lt hyx]⟩

theorem mem_along_place (htree : d.InTree x) (hytree : d.InTree y) :
    d.place x y ∈ partition ∧ y ∈ d.view.along (d.place x y) x := by
  rw [h.mem_along_iff htree.1, place]
  split
  · rename_i heq
    exact ⟨by simp [partition], heq⟩
  split
  · rename_i habove
    exact ⟨by simp [partition], habove⟩
  split
  · rename_i hbelow
    exact ⟨by simp [partition], hytree, hbelow⟩
  split
  · rename_i hbelow hxy
    exact ⟨by simp [partition], hytree, hxy, hbelow⟩
  · rename_i hne habove hbelow hxy
    have hyx : y < x := Nat.lt_of_le_of_ne (Nat.le_of_not_lt hxy) hne
    exact ⟨by simp [partition], hytree, hyx, habove⟩

/-- The node itself, what is above, below, behind and in front of it make up the tree. -/
theorem perm_along (htree : d.InTree x) :
    (partition.flatMap fun axis => d.view.along axis x).Perm
      ((List.range d.size).filter fun y => !d.view.isOwned y) := by
  refine (List.perm_ext_iff_of_nodup ?_ ?_).mpr fun y => ?_
  · refine List.pairwise_flatMap.mpr ⟨fun axis _ => h.nodup_along htree.1 axis, ?_⟩
    have hdistinct : partition.Nodup := by decide
    refine hdistinct.imp_of_mem fun {a b} ha hb hab y hy z hz hyz => hab ?_
    rw [← (h.place_of_mem_along htree ha hy).2, ← (h.place_of_mem_along htree hb hz).2, hyz]
  · exact List.nodup_range.filter _
  · rw [List.mem_flatMap, List.mem_filter, List.mem_range, Bool.not_eq_true', Bool.eq_false_iff]
    constructor
    · rintro ⟨axis, haxis, hy⟩
      exact (h.place_of_mem_along htree haxis hy).1
    · intro hy
      exact ⟨_, h.mem_along_place htree hy⟩

end WellBuilt

/-- From every node of a document, each axis leads to the nodes that it has to, each once, and for
a node of the tree five of the axes make up the tree. -/
theorem along_ofEvents (events : List Event) (x : NodeId) :
    let d := ofEvents events
    x < d.size →
      (∀ axis, d.Reaches x axis (d.view.along axis x) ∧ (d.view.along axis x).Nodup) ∧
      (¬ d.view.isOwned x → (partition.flatMap fun axis => d.view.along axis x).Perm
        ((List.range d.size).filter fun y => !d.view.isOwned y)) := by
  intro d hx
  have h : d.WellBuilt := wellBuilt_ofEvents events
  exact ⟨fun axis => ⟨h.reaches_along hx axis, h.nodup_along hx axis⟩,
    fun howned => h.perm_along ⟨hx, howned⟩⟩

theorem along_ofEvents_element :
    let d := ofEvents [.start "a" [("k", "v")], .text "t", .close]
    1 < d.size ∧ ¬ d.view.isOwned 1 ∧ d.Reaches 1 .following (d.view.along .following 1) ∧
      (partition.flatMap fun axis => d.view.along axis 1).Perm [0, 1, 3] := by
  have hspec := along_ofEvents [.start "a" [("k", "v")], .text "t", .close] 1 (by decide)
  exact ⟨by decide, by decide, (hspec.1 .following).1, hspec.2 (by decide)⟩

end TreeQuery.Document
