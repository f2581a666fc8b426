import TreeQuery.Proofs.Tree.Lineage
import TreeQuery.Tree.Builder

/-!
Scopes inside nested elements. The declarations in force are those that the attributes of the
elements make, innermost and last first, in front of the two that every document has. So a prefix
is resolved by the last declaration of the innermost element that declares it, and the bindings in
force are these declarations for all prefixes, outermost first.
-/
namespace TreeQuery

/-- An attribute of the given name declares the prefix. -/
def Declares (pfx name : String) : Prop := name = "xmlns:" ++ pfx ∨ (name = "xmlns" ∧ pfx = "")

theorem declared?_eq_some_iff {name pfx : String} :
    Builder.declared? name = some pfx ↔ Declares pfx name := by
  rw [Builder.declared?, Declares]
  split
  · rename_i hname
    subst hname
    rw [or_iff_right fun h => by
      have hlen := congrArg (fun s => s.toList.length) h
      simp at hlen]
    simp [eq_comm]
  · rename_i hname
    rw [or_iff_left fun h => hname h.1]
    constructor
    · intro h
      split at h
      · rename_i hprefix
        rw [String.isPrefixOf, String.startsWith_string_iff] at hprefix
        obtain ⟨rest, hrest⟩ := hprefix
        rw [Option.some.injEq] at h
        rw [← String.toList_inj, String.toList_append, ← h, ← hrest]
        simp [← hrest]
      · cases h
    · rintro rfl
      have hprefix : String.isPrefixOf "xmlns:" ("xmlns:" ++ pfx) = true := by
        rw [String.isPrefixOf, String.startsWith_string_iff, String.toList_append]
        exact List.prefix_append _ _
      rw [if_pos hprefix, Option.some.injEq, ← String.toList_inj]
      simp

namespace Scope

open Builder (declared? innerScope)

/-! ## Declarations where they are written -/

/-- A declaration as it is written: on which element, and as which of its attributes. -/
structure Site extends Declaration where
  owner : NodeId
  index : Nat

/-- The first site is further out, or further left on the same element. -/
def Site.Before (s t : Site) : Prop := s.owner < t.owner ∨ s.owner = t.owner ∧ s.index < t.index

theorem Site.Before.asymm {s t : Site} (h : s.Before t) : ¬ t.Before s := by
  rintro (hback | ⟨howner, hback⟩)
  · rcases h with hlt | ⟨howner, _⟩
    · exact Nat.lt_asymm hlt hback
    · exact Nat.ne_of_lt hback howner.symm
  · rcases h with hlt | ⟨_, hlt⟩
    · exact Nat.ne_of_lt hlt howner.symm
    · exact Nat.lt_asymm hlt hback

/-- The site of an attribute, when it declares a prefix. -/
def site? (owner : NodeId) (depth : UInt16) : (String × String) × Nat → Option Site
  | ((name, value), index) =>
    match declared? name with
    | some pfx => if isReserved pfx then none else some ⟨⟨pfx, value, depth⟩, owner, index⟩
    | none => none

/-- The sites on one element, from left to right. -/
def sitesOn (owner : NodeId) (depth : UInt16) (attrs : WrittenAttrs) : List Site :=
  attrs.zipIdx.filterMap (site? owner depth)

/-- The sites on nested elements, the innermost and last first. -/
def sites (written : NodeId → WrittenAttrs) : List NodeId → List Site
  | [] => []
  | e :: outer =>
    (sitesOn e (UInt16.ofNat (outer.length + 1)) (written e)).reverse ++ sites written outer

/-- The scope inside elements with the given attributes, the innermost first. -/
def within : List WrittenAttrs → Scope
  | [] => initial
  | attrs :: outer => innerScope (within outer) attrs

variable {written : NodeId → WrittenAttrs} {path : List NodeId} {owner : NodeId} {s t : Site}
  {depth : UInt16} {attrs : WrittenAttrs} {pfx uri : String}

theorem site?_eq_some_iff {name value : String} {i : Nat} :
    site? owner depth ((name, value), i) = some s ↔
      Declares s.pfx name ∧ isReserved s.pfx = false ∧ s = ⟨⟨s.pfx, value, depth⟩, owner, i⟩ := by
  rw [← declared?_eq_some_iff]
  simp only [site?]
  cases hname : declared? name with
  | none => simp
  | some pfx =>
      simp only [Option.some.injEq]
      constructor
      · intro h
        split at h
        · cases h
        · rename_i hreserved
          cases h
          exact ⟨rfl, by simpa using hreserved, rfl⟩
      · rintro ⟨rfl, hreserved, hs⟩
        rw [hreserved, ← hs]
        rfl

theorem mem_sitesOn : s ∈ sitesOn owner depth attrs ↔
    s.owner = owner ∧ s.depth = depth ∧ isReserved s.pfx = false ∧
      ∃ name, attrs[s.index]? = some (name, s.uri) ∧ Declares s.pfx name := by
  simp only [sitesOn, List.mem_filterMap]
  constructor
  · rintro ⟨⟨⟨name, value⟩, i⟩, hmem, hs⟩
    obtain ⟨hdeclares, hreserved, hs⟩ := site?_eq_some_iff.mp hs
    rw [hs]
    exact ⟨rfl, rfl, hreserved, name, List.mk_mem_zipIdx_iff_getElem?.mp hmem, hdeclares⟩
  · rintro ⟨rfl, rfl, hreserved, name, hget, hdeclares⟩
    exact ⟨((name, s.uri), s.index), List.mk_mem_zipIdx_iff_getElem?.mpr hget,
      site?_eq_some_iff.mpr ⟨hdeclares, hreserved, rfl⟩⟩

theorem pairwise_sitesOn : (sitesOn owner depth attrs).Pairwise Site.Before := by
  have hindex : attrs.zipIdx.Pairwise fun a b => a.2 < b.2 := by
    rw [← List.pairwise_map (f := Prod.snd) (R := fun a b => a < b)]
    simpa using List.pairwise_lt_range' (s := 0) (n := attrs.length)
  refine List.Pairwise.filterMap _ (fun a b hab s hs t ht => ?_) hindex
  obtain ⟨_, _, hs⟩ := site?_eq_some_iff.mp hs
  obtain ⟨_, _, ht⟩ := site?_eq_some_iff.mp ht
  rw [hs, ht]
  exact .inr ⟨rfl, hab⟩

theorem mem_sites : s ∈ sites written path → s.owner ∈ path ∧ isReserved s.pfx = false ∧
    ∃ name, (written s.owner)[s.index]? = some (name, s.uri) ∧ Declares s.pfx name := by
  induction path with
  | nil => simp [sites]
  | cons e outer ih =>
      rw [sites, List.mem_append, List.mem_reverse, mem_sitesOn]
      rintro (⟨rfl, _, hreserved, hname⟩ | hs)
      · exact ⟨List.mem_cons_self, hreserved, hname⟩
      · obtain ⟨howner, hrest⟩ := ih hs
        exact ⟨List.mem_cons_of_mem e howner, hrest⟩

theorem exists_mem_sites {name : String} {index : Nat} (howner : owner ∈ path)
    (hreserved : isReserved pfx = false) (hget : (written owner)[index]? = some (name, uri))
    (hdeclares : Declares pfx name) :
    ∃ depth, (⟨⟨pfx, uri, depth⟩, owner, index⟩ : Site) ∈ sites written path := by
  induction path with
  | nil => cases howner
  | cons e outer ih =>
      simp only [sites, List.mem_append, List.mem_reverse, mem_sitesOn]
      rcases List.mem_cons.mp howner with rfl | howner
      · exact ⟨_, .inl ⟨rfl, rfl, hreserved, name, hget, hdeclares⟩⟩
      · obtain ⟨depth, hmem⟩ := ih howner
        exact ⟨depth, .inr hmem⟩

/-- Later sites come first, when inner elements have larger numbers. -/
theorem pairwise_sites (hpath : path.Pairwise (· > ·)) :
    (sites written path).Pairwise fun s t => t.Before s := by
  induction path with
  | nil => exact .nil
  | cons e outer ih =>
      obtain ⟨he, houter⟩ := List.pairwise_cons.mp hpath
      refine List.pairwise_append.mpr
        ⟨List.pairwise_reverse.mpr pairwise_sitesOn, ih houter, fun s hs t ht => .inl ?_⟩
      rw [(mem_sitesOn.mp (List.mem_reverse.mp hs)).1]
      exact he _ (mem_sites ht).1

/-! ## Scopes inside nested elements -/

theorem foldl_declare (attrs : WrittenAttrs) (scope : Scope) (owner : NodeId) (i : Nat) :
    attrs.foldl
      (fun scope (name, value) =>
        match declared? name with
        | some pfx => scope.declare pfx value
        | none => scope) scope =
      { scope with
        declarations := ((attrs.zipIdx i).filterMap (site? owner scope.depth)).reverse.map
          Site.toDeclaration ++ scope.declarations } := by
  induction attrs generalizing scope i with
  | nil => rfl
  | cons attr attrs ih =>
      obtain ⟨name, value⟩ := attr
      rw [List.foldl_cons, ih _ (i + 1), List.zipIdx_cons, List.filterMap_cons]
      simp only [site?]
      cases declared? name with
      | none => rfl
      | some pfx =>
          simp only [declare]
          cases isReserved pfx with
          | true => rfl
          | false => simp

theorem innerScope_eq (scope : Scope) (attrs : WrittenAttrs) (owner : NodeId) :
    innerScope scope attrs =
      { declarations := (sitesOn owner (scope.depth + 1) attrs).reverse.map Site.toDeclaration ++
          scope.declarations
        depth := scope.depth + 1 } := by
  exact foldl_declare attrs scope.push owner 0

theorem depth_within (lists : List WrittenAttrs) :
    (within lists).depth = UInt16.ofNat lists.length := by
  induction lists with
  | nil => rfl
  | cons attrs outer ih =>
      rw [within, innerScope_eq _ _ 0, ih, List.length_cons, UInt16.ofNat_add]
      rfl

theorem declarations_within (written : NodeId → WrittenAttrs) (path : List NodeId) :
    (within (path.map written)).declarations =
      (sites written path).map Site.toDeclaration ++ initial.declarations := by
  induction path with
  | nil => rfl
  | cons e outer ih =>
      rw [List.map_cons, within, innerScope_eq _ _ e, depth_within, sites, List.map_append, ih,
        List.length_map, UInt16.ofNat_add, List.append_assoc]
      rfl

theorem toNat_depth {n : Nat} (hn : n ≤ 65535) : (UInt16.ofNat n).toNat = n :=
  UInt16.toNat_ofNat_of_lt' (Nat.lt_succ_of_le hn)

theorem depth_of_mem_sites (hlength : path.length ≤ 65535) (hs : s ∈ sites written path) :
    0 < s.depth.toNat ∧ s.depth.toNat ≤ path.length := by
  induction path with
  | nil => cases hs
  | cons e outer ih =>
      rw [List.length_cons] at hlength ⊢
      rw [sites, List.mem_append, List.mem_reverse, mem_sitesOn] at hs
      rcases hs with ⟨_, hdepth, _⟩ | hs
      · rw [hdepth, toNat_depth hlength]
        omega
      · have := ih (by omega) hs
        omega

/-- What is declared on a path, or from the start, belongs to no depth beyond the path. -/
theorem depth_of_mem_within (hlength : path.length ≤ 65535) {d : Declaration}
    (hd : d ∈ (within (path.map written)).declarations) : d.depth.toNat ≤ path.length := by
  rw [declarations_within, List.mem_append] at hd
  rcases hd with hd | hd
  · obtain ⟨s, hs, rfl⟩ := List.mem_map.mp hd
    exact (depth_of_mem_sites hlength hs).2
  · have hzero : d.depth = 0 := by
      revert d
      decide
    rw [hzero]
    exact Nat.zero_le _

/-- Leaving an element takes back what its attributes declare, and nothing else. -/
theorem pop_within {e : NodeId} (hlength : path.length < 65535) :
    (within ((e :: path).map written)).pop = within (path.map written) := by
  have hdepth : (within ((e :: path).map written)).depth = UInt16.ofNat path.length + 1 := by
    rw [depth_within, List.length_map, List.length_cons, UInt16.ofNat_add]
    rfl
  have htoNat : (UInt16.ofNat path.length + 1).toNat = path.length + 1 := by
    rw [← toNat_depth (n := path.length + 1) hlength, UInt16.ofNat_add]
    rfl
  have hinner : ∀ d ∈ (sitesOn e (UInt16.ofNat path.length + 1) (written e)).reverse.map
      Site.toDeclaration, decide (UInt16.ofNat path.length + 1 ≤ d.depth) = true := by
    intro d hd
    obtain ⟨s, hs, rfl⟩ := List.mem_map.mp hd
    rw [(mem_sitesOn.mp (List.mem_reverse.mp hs)).2.1]
    exact decide_eq_true (UInt16.le_refl _)
  have houter : ∀ d ∈ (within (path.map written)).declarations,
      ¬ UInt16.ofNat path.length + 1 ≤ d.depth := by
    intro d hd
    rw [UInt16.le_iff_toNat_le, htoNat, Nat.not_le]
    exact Nat.lt_succ_of_le (depth_of_mem_within (Nat.le_of_lt hlength) hd)
  have hkept : (within (path.map written)).declarations.dropWhile
      (fun d => decide (UInt16.ofNat path.length + 1 ≤ d.depth)) =
        (within (path.map written)).declarations := by
    cases hd : (within (path.map written)).declarations with
    | nil => rfl
    | cons d ds =>
        exact List.dropWhile_cons_of_neg (by simpa using houter d (hd ▸ List.mem_cons_self))
  have hne : UInt16.ofNat path.length + 1 ≠ 0 := by
    intro hzero
    have := congrArg UInt16.toNat hzero
    rw [htoNat] at this
    exact Nat.succ_ne_zero _ this
  rw [pop, hdepth, if_neg hne, List.map_cons, within, innerScope_eq _ _ e, depth_within,
    List.length_map, List.dropWhile_append_of_pos hinner, hkept, UInt16.add_sub_cancel,
    ← List.length_map written, ← depth_within]

/-! ## Prefixes -/

theorem not_reserved_of_mem_sites (hs : s ∈ sites written path) : isReserved s.pfx = false :=
  (mem_sites hs).2.1

theorem isReserved_of_mem_initial {d : Declaration} (hd : d ∈ initial.declarations) :
    isReserved d.pfx = true := by
  revert d
  decide

/-- The last site of a prefix counts. -/
theorem resolve?_within (hreserved : isReserved pfx = false) :
    (within (path.map written)).resolve? pfx =
      (((sites written path).find? (·.pfx == pfx)).map (·.uri)).filter (· != "") := by
  have hinitial : initial.declarations.find? (·.pfx == pfx) = none := by
    simp only [isReserved, Bool.or_eq_false_iff, beq_eq_false_iff_ne] at hreserved
    simp [initial, hreserved.1.symm, hreserved.2.symm]
  rw [resolve?, declarations_within, List.find?_append, hinitial, Option.or_none, List.find?_map,
    Option.map_map]
  rfl

theorem resolve?_within_reserved (hreserved : isReserved pfx = true) :
    (within (path.map written)).resolve? pfx = initial.resolve? pfx := by
  have hsites : ((sites written path).map Site.toDeclaration).find? (·.pfx == pfx) = none := by
    refine List.find?_eq_none.mpr fun d hd hpfx => ?_
    obtain ⟨s, hs, rfl⟩ := List.mem_map.mp hd
    rw [← eq_of_beq hpfx, not_reserved_of_mem_sites hs] at hreserved
    cases hreserved
  rw [resolve?, declarations_within, List.find?_append, hsites, Option.none_or]
  rfl

/-- Of sites with the later ones first, the first one of a prefix is the last one that is written. -/
theorem last_of_find? {l : List Site} (hl : l.Pairwise fun s t => t.Before s)
    (h : l.find? (·.pfx == pfx) = some s) :
    s ∈ l ∧ s.pfx = pfx ∧ ∀ t ∈ l, t.pfx = pfx → t = s ∨ t.Before s := by
  obtain ⟨hpfx, before, after, rfl, hbefore⟩ := List.find?_eq_some_iff_append.mp h
  refine ⟨by simp, eq_of_beq hpfx, fun t ht htpfx => ?_⟩
  rcases List.mem_append.mp ht with ht | ht
  · exact absurd (beq_iff_eq.mpr htpfx) (by simpa using hbefore t ht)
  · rcases List.mem_cons.mp ht with rfl | ht
    · exact .inl rfl
    · exact .inr ((List.pairwise_cons.mp (List.pairwise_append.mp hl).2.1).1 t ht)

/-! ## Bindings -/

theorem mem_of_mem_effective {later : List String} {ds : List Declaration} {d : Declaration}
    (h : d ∈ effective later ds) : d ∈ ds := by
  induction ds generalizing later with
  | nil => cases h
  | cons first ds ih =>
      rw [effective] at h
      split at h
      · exact List.mem_cons_of_mem first (ih h)
      · rcases List.mem_cons.mp h with rfl | h
        · exact List.mem_cons_self
        · exact List.mem_cons_of_mem first (ih h)

/-- The declarations of a list with no later one for their prefix. -/
theorem exists_effective (l : List Site) (ds : List Declaration) (later : List String) :
    ∃ kept : List Site, kept.Sublist l ∧
      (∃ others, effective later (l.map Site.toDeclaration ++ ds) =
        kept.map Site.toDeclaration ++ others ∧ ∀ d ∈ others, d ∈ ds) ∧
      ∀ s, s ∈ kept ↔ s.pfx ∉ later ∧ l.find? (·.pfx == s.pfx) = some s := by
  induction l generalizing later with
  | nil =>
      exact ⟨[], .slnil, ⟨effective later ds, rfl, fun _ => mem_of_mem_effective⟩, by simp⟩
  | cons t l ih =>
      rw [List.map_cons, List.cons_append, effective]
      split
      · rename_i hlater
        obtain ⟨kept, hsub, hothers, hmem⟩ := ih later
        refine ⟨kept, hsub.cons t, hothers, fun s => ?_⟩
        rw [hmem]
        refine and_congr_right fun hs => ?_
        have hne : t.pfx ≠ s.pfx := fun h => hs (h ▸ by simpa using hlater)
        rw [List.find?_cons_of_neg (by simpa using hne)]
      · rename_i hlater
        obtain ⟨kept, hsub, ⟨others, hothers, hds⟩, hmem⟩ := ih (t.pfx :: later)
        refine ⟨t :: kept, hsub.cons_cons t, ⟨others, by rw [hothers]; rfl, hds⟩, fun s => ?_⟩
        rw [List.mem_cons, hmem, List.mem_cons, not_or]
        by_cases hpfx : t.pfx = s.pfx
        · rw [List.find?_cons_of_pos (by simpa using hpfx)]
          constructor
          · rintro (rfl | ⟨⟨hne, _⟩, _⟩)
            · exact ⟨by simpa using hlater, rfl⟩
            · exact absurd hpfx.symm hne
          · rintro ⟨_, hts⟩
            exact .inl (Option.some.inj hts).symm
        · rw [List.find?_cons_of_neg (by simpa using hpfx),
            or_iff_right (by rintro rfl; exact hpfx rfl), and_iff_right (Ne.symm hpfx)]

/-- The bindings in force are what the last sites of all prefixes say, in the order in which they
are written. -/
theorem exists_bindings_within (hpath : path.Pairwise (· > ·)) :
    ∃ last : List Site, last.Pairwise Site.Before ∧
      (within (path.map written)).bindings = last.map (fun s => (s.pfx, s.uri)) ∧
      ∀ s, s ∈ last ↔ (sites written path).find? (·.pfx == s.pfx) = some s ∧ s.uri ≠ "" := by
  obtain ⟨kept, hsub, ⟨others, heffective, hothers⟩, hmem⟩ :=
    exists_effective (sites written path) initial.declarations []
  refine ⟨(kept.filter (·.uri != "")).reverse, ?_, ?_, fun s => ?_⟩
  · exact List.pairwise_reverse.mpr (((pairwise_sites hpath).sublist hsub).filter _)
  · have hnone : others.filter (fun d => d.uri != "" && !isReserved d.pfx) = [] := by
      refine List.filter_eq_nil_iff.mpr fun d hd => ?_
      simp [isReserved_of_mem_initial (hothers d hd)]
    have hkept : (kept.map Site.toDeclaration).filter (fun d => d.uri != "" && !isReserved d.pfx) =
        (kept.filter (·.uri != "")).map Site.toDeclaration := by
      rw [List.filter_map]
      refine congrArg _ (List.filter_congr fun s hs => ?_)
      have hreserved := not_reserved_of_mem_sites (hsub.subset hs)
      simp [hreserved]
    rw [bindings, declarations_within, heffective, List.filter_append, hnone, List.append_nil,
      hkept, ← List.map_reverse, List.map_map]
    rfl
  · rw [List.mem_reverse, List.mem_filter, hmem]
    simp

end Scope

end TreeQuery
