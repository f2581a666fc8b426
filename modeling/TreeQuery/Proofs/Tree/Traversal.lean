import TreeQuery.Proofs.Tree.WellBuilt

/-!
What lists of nodes a well-built document gives: the children of a node, its siblings on either
side, and what is below and above it. Each list is told by its order and its members.
-/
namespace TreeQuery

/-- The list holds the nodes with a property, each once, in document order. -/
structure Lists (l : List NodeId) (q : NodeId → Prop) : Prop where
  ascending : Ascending l
  mem_iff : ∀ y, y ∈ l ↔ q y

namespace Lists

variable {l l₁ l₂ : List Nat} {q q₁ q₂ : Nat → Prop}

theorem congr (h : Lists l q₁) (hq : ∀ y, q₁ y ↔ q₂ y) : Lists l q₂ :=
  ⟨h.ascending, fun y => (h.mem_iff y).trans (hq y)⟩

theorem nil (hq : ∀ y, ¬ q y) : Lists [] q :=
  ⟨.nil, fun y => iff_of_false List.not_mem_nil (hq y)⟩

theorem append (h₁ : Lists l₁ q₁) (h₂ : Lists l₂ q₂) (hlt : ∀ x y, q₁ x → q₂ y → x < y) :
    Lists (l₁ ++ l₂) fun y => q₁ y ∨ q₂ y :=
  ⟨h₁.ascending.append h₂.ascending fun x hx y hy =>
      hlt x y ((h₁.mem_iff x).mp hx) ((h₂.mem_iff y).mp hy),
    fun y => List.mem_append.trans (or_congr (h₁.mem_iff y) (h₂.mem_iff y))⟩

end Lists

namespace View

variable (v : View)

theorem foldr_eq_flatMap (f : NodeId → List NodeId → List NodeId)
    (hf : ∀ c rest, f c rest = f c [] ++ rest) (l rest : List NodeId) :
    l.foldr (fun c rest => c :: f c rest) rest = (l.flatMap fun c => c :: f c []) ++ rest := by
  induction l with
  | nil => rfl
  | cons c l ih => rw [List.foldr_cons, ih, hf, List.flatMap_cons, List.cons_append,
      List.cons_append, List.append_assoc]

theorem below_eq_append (n : Nat) (x : NodeId) (rest : List NodeId) :
    v.below n x rest = v.below n x [] ++ rest := by
  induction n generalizing x rest with
  | zero => rfl
  | succ n ih =>
      rw [below, below, foldr_eq_flatMap (v.below n) ih, foldr_eq_flatMap (v.below n) ih,
        List.append_nil]

theorem below_succ (n : Nat) (x : NodeId) :
    v.below (n + 1) x [] = (v.children x).flatMap fun c => c :: v.below n c [] := by
  rw [below, foldr_eq_flatMap (v.below n) (v.below_eq_append n), List.append_nil]

end View

namespace Document

/-- The node is there and is neither an attribute nor a binding. -/
def InTree (d : Document) (id : NodeId) : Prop := id < d.size ∧ ¬ d.view.isOwned id

variable {d : Document} {a b e p x y : Nat}

theorem mem_offspring_iff : y ∈ d.offspring p ↔ d.InTree y ∧ d.view.parent? y = some p := by
  rw [mem_offspring, InTree]
  constructor
  · rintro ⟨hp, hy⟩
    exact ⟨⟨lt_size_of_parent? hp, hy⟩, hp⟩
  · rintro ⟨⟨_, hy⟩, hp⟩
    exact ⟨hp, hy⟩

theorem lists_offspring : Lists (d.offspring p) fun y => d.InTree y ∧ d.view.parent? y = some p :=
  ⟨ascending_offspring, fun _ => mem_offspring_iff⟩

theorem inTree_of_element (h : d.kind x = .element) : d.InTree x := by
  refine ⟨lt_size_of_kind (by rw [h]; decide), ?_⟩
  rw [isOwned_iff, h]
  decide

theorem lt_size_of_isAbove (h : d.view.IsAbove a x) : x < d.size := by
  obtain ⟨p, hp, _⟩ := View.isAbove_iff.mp h
  exact lt_size_of_parent? hp

namespace WellBuilt

variable (h : d.WellBuilt)
include h

/-! ## Single nodes -/

theorem isAbove_lt (ha : d.view.IsAbove a x) : a < x := ha.lt h.parent_lt

theorem inTree_of_parent (hp : d.view.parent? x = some p) : d.InTree p := by
  refine ⟨Nat.lt_trans (h.parent_lt x p hp) (lt_size_of_parent? hp), ?_⟩
  rw [isOwned_iff]
  rcases h.kind_parent x p hp with rfl | hk
  · simp [kind, h.content?_documentNode, Content.kind]
  · simp [hk]

theorem inTree_of_isAbove (ha : d.view.IsAbove a x) : d.InTree a := by
  obtain ⟨child, hchild, _⟩ := View.isAbove_iff_child.mp ha
  exact h.inTree_of_parent hchild

theorem not_isAbove_of_isOwned (hx : d.view.isOwned x) : ¬ d.view.IsAbove x y :=
  fun ha => (h.inTree_of_isAbove ha).2 hx

theorem inTree_documentNode : d.InTree View.documentNode := by
  refine ⟨h.size_pos, ?_⟩
  rw [isOwned_iff]
  simp [kind, h.content?_documentNode, Content.kind]

theorem isAbove_documentNode (hpos : 0 < x) (hx : x < d.size) :
    d.view.IsAbove View.documentNode x := by
  induction x using Nat.strongRecOn with
  | ind x ih =>
      obtain ⟨p, hlt, hp⟩ := h.exists_parent x hpos hx
      rcases Nat.eq_zero_or_pos p with rfl | hppos
      · exact .parent hp
      · exact .up hp (ih p hlt hppos (by omega))

theorem eq_documentNode (hx : x < d.size) (hp : d.view.parent? x = none) :
    x = View.documentNode := by
  rcases Nat.eq_zero_or_pos x with rfl | hpos
  · rfl
  · obtain ⟨p, _, hsome⟩ := h.exists_parent x hpos hx
    rw [hp] at hsome
    cases hsome

theorem exists_parent_of_element (hx : d.kind x = .element) :
    ∃ p, d.view.parent? x = some p := by
  cases hp : d.view.parent? x with
  | some p => exact ⟨p, rfl⟩
  | none =>
      have hdocument := h.eq_documentNode (inTree_of_element hx).1 hp
      rw [hdocument, kind_of_content? h.content?_documentNode] at hx
      cases hx

/-- A node with all below it lies in front of the later nodes that are not below it. -/
theorem lt_of_not_isAbove (hy : y = a ∨ d.view.IsAbove a y) (hab : a < b)
    (hb : ¬ d.view.IsAbove a b) : y < b := by
  rcases hy with rfl | hy
  · exact hab
  · have hlt := Nat.lt_trans (h.isAbove_lt hy) (lt_size_of_isAbove hy)
    obtain ⟨stop, hstop⟩ := h.subtree a hlt
    have hbehind := mt (hstop b).mpr (not_or.mpr ⟨Nat.ne_of_gt hab, hb⟩)
    have hbelow := (hstop y).mp (.inr hy)
    omega

theorem not_isAbove_of_sibling (ha : d.view.parent? a = some p) (hb : d.view.parent? b = some p) :
    ¬ d.view.IsAbove a b := by
  rw [View.isAbove_iff_of_parent hb]
  rintro (rfl | hap)
  · exact Nat.lt_irrefl _ (h.parent_lt a a ha)
  · exact Nat.lt_asymm (h.isAbove_lt hap) (h.parent_lt a p ha)

/-! ## Children and siblings -/

omit h in
theorem length_offspring_le : (d.offspring p).length ≤ d.size :=
  Nat.le_trans (List.length_filter_le ..) (Nat.le_of_eq List.length_range)

theorem children_eq : d.children p = d.offspring p := by
  rw [children, (h.linked p).first, List.head?_eq_getElem?,
    View.chain_eq_drop (h.linked p).next d.size 0 (by simpa using length_offspring_le)]
  rfl

/-! ## What is below -/

/-- Whole subtrees of children of one node, one behind the other. -/
theorem ascending_flatMap {f : Nat → List Nat} {l : List Nat} (hl : Ascending l)
    (hparent : ∀ c ∈ l, d.view.parent? c = some p) (hf : ∀ c ∈ l, Ascending (f c))
    (habove : ∀ c, ∀ y ∈ f c, d.view.IsAbove c y) :
    Ascending (l.flatMap fun c => c :: f c) := by
  refine List.pairwise_flatMap.mpr ⟨fun c hc => ?_, ?_⟩
  · exact List.pairwise_cons.mpr ⟨fun y hy => h.isAbove_lt (habove c y hy), hf c hc⟩
  · refine hl.imp_of_mem fun {a b} ha hb hab x hx y hy => ?_
    have hsibling := h.not_isAbove_of_sibling (hparent a ha) (hparent b hb)
    have hxb : x < b := h.lt_of_not_isAbove ((List.mem_cons.mp hx).imp_right (habove a x)) hab
      hsibling
    rcases List.mem_cons.mp hy with rfl | hy
    · exact hxb
    · exact Nat.lt_trans hxb (h.isAbove_lt (habove b y hy))

theorem isAbove_of_mem_below (n : Nat) (hy : y ∈ d.view.below n x []) :
    d.InTree y ∧ d.view.IsAbove x y := by
  induction n generalizing x with
  | zero => cases hy
  | succ n ih =>
      rw [View.below_succ, show d.view.children x = d.offspring x from h.children_eq,
        List.mem_flatMap] at hy
      obtain ⟨c, hc, hy⟩ := hy
      obtain ⟨htree, hparent⟩ := mem_offspring_iff.mp hc
      rcases List.mem_cons.mp hy with rfl | hy
      · exact ⟨htree, .parent hparent⟩
      · exact ⟨(ih hy).1, (View.IsAbove.parent hparent).trans (ih hy).2⟩

theorem mem_below (n : Nat) (hn : d.size ≤ n + x) (htree : d.InTree y)
    (hy : d.view.IsAbove x y) : y ∈ d.view.below n x [] := by
  -- children have larger numbers, so the depth that is left stays enough
  induction n generalizing x with
  | zero =>
      have hlt := Nat.lt_trans (h.isAbove_lt hy) htree.1
      omega
  | succ n ih =>
      rw [View.below_succ, show d.view.children x = d.offspring x from h.children_eq,
        List.mem_flatMap]
      obtain ⟨c, hparent, hy⟩ := View.isAbove_iff_child.mp hy
      have hlt := h.parent_lt c x hparent
      rcases hy with rfl | hy
      · exact ⟨y, mem_offspring_iff.mpr ⟨htree, hparent⟩, List.mem_cons_self⟩
      · exact ⟨c, mem_offspring_iff.mpr ⟨h.inTree_of_isAbove hy, hparent⟩,
          List.mem_cons_of_mem c (ih (by omega) hy)⟩

theorem ascending_below (n : Nat) : Ascending (d.view.below n x []) := by
  induction n generalizing x with
  | zero => exact .nil
  | succ n ih =>
      rw [View.below_succ, show d.view.children x = d.offspring x from h.children_eq]
      exact h.ascending_flatMap ascending_offspring (fun c hc => (mem_offspring_iff.mp hc).2)
        (fun _ _ => ih) fun _ _ hy => (h.isAbove_of_mem_below n hy).2

theorem lists_descendants :
    Lists (d.view.descendants x) fun y => d.InTree y ∧ d.view.IsAbove x y :=
  ⟨h.ascending_below d.size, fun _ =>
    ⟨h.isAbove_of_mem_below d.size, fun hy => h.mem_below d.size (Nat.le_add_right ..) hy.1 hy.2⟩⟩

/-- All nodes of the tree, in document order. -/
theorem lists_all : Lists (View.documentNode :: d.view.descendants View.documentNode) d.InTree := by
  refine ⟨List.pairwise_cons.mpr ⟨fun y hy => ?_, h.lists_descendants.ascending⟩, fun y => ?_⟩
  · exact h.isAbove_lt ((h.lists_descendants.mem_iff y).mp hy).2
  · rw [List.mem_cons, h.lists_descendants.mem_iff]
    constructor
    · rintro (rfl | hy)
      · exact h.inTree_documentNode
      · exact hy.1
    · intro hy
      rcases Nat.eq_zero_or_pos y with rfl | hpos
      · exact .inl rfl
      · exact .inr ⟨hy, h.isAbove_documentNode hpos hy.1⟩

/-! ## What is above -/

theorem lineage_ancestors (hx : x < d.size) : d.view.Lineage x (d.view.ancestors x) := by
  obtain ⟨l, hl⟩ := View.exists_lineage h.parent_lt x
  have hlength : l.length ≤ d.view.size :=
    Nat.le_trans (hl.length_le h.parent_lt) (Nat.le_of_lt hx)
  rw [hl.ancestors hlength]
  exact hl

end WellBuilt

end Document

end TreeQuery
