import Mathlib.Data.List.Find
import TreeQuery.Proofs.Tree.WellBuilt

/-!
A document with one more child: a node behind all others, the last child of a node that is still
open, and right behind it the attributes and bindings that it owns. What holds of a document before
holds afterwards.
-/
namespace TreeQuery

/-- How many bindings and how many attributes stand behind a node. -/
def Content.counts : Content → Nat × Nat
  | .element _ bindings attrs => (bindings, attrs)
  | _ => (0, 0)

namespace Document

/-- The second document is the first one with one more child of a node. -/
structure Attached (d d' : Document) (parent : Nat) (content : Content) : Prop where
  size_eq : d'.size = d.size + 1 + content.counts.1 + content.counts.2
  content?_old : ∀ id : Nat, id < d.size → d'.content? id = d.content? id
  content?_new : d'.content? d.size = some content
  kind_binding : ∀ id : Nat, d.size < id → id ≤ d.size + content.counts.1 → d'.kind id = .binding
  kind_attr : ∀ id : Nat, d.size + content.counts.1 < id → id < d'.size → d'.kind id = .attr
  parent?_old : ∀ id : Nat, id < d.size → d'.view.parent? id = d.view.parent? id
  parent?_new : d'.view.parent? d.size = some parent
  parent?_owned : ∀ id : Nat, d.size < id → id < d'.size → d'.view.parent? id = some d.size
  firstChild? : ∀ id, d'.firstChild? id =
    if id = parent then (d.firstChild? id).or (some d.size) else d.firstChild? id
  lastChild? : ∀ id, d'.lastChild? id = if id = parent then some d.size else d.lastChild? id
  nextSibling? : ∀ id, d'.nextSibling? id =
    if d.lastChild? parent = some id then some d.size else d.nextSibling? id
  prevSibling? : ∀ id, d'.view.prevSibling? id =
    if id = d.size then d.lastChild? parent else d.view.prevSibling? id
  rootElement_eq : d'.rootElement =
    d.rootElement.or
      (if content.kind = .element ∧ parent = View.documentNode then some d.size else none)

/-- The nodes that can still get children, innermost first: elements, each the child of the next,
and everything behind such a node is below it. -/
structure OpenPath (d : Document) (path : List NodeId) : Prop where
  lineage : ∀ e outer, path = e :: outer → d.view.Lineage e (outer ++ [View.documentNode])
  kind : ∀ e ∈ path, d.kind e = .element
  isAbove : ∀ x ∈ path ++ [View.documentNode], ∀ id : Nat, x < id → id < d.size →
    d.view.IsAbove x id

variable {d d' : Document} {path : List NodeId} {content : Content} {id e p x y parent : Nat}

theorem bindings_of_content? (h : d.content? e = some content) :
    d.bindings e = List.range' (e + 1) content.counts.1 := by
  rw [bindings, h]
  cases content <;> rfl

theorem attributes_of_content? (h : d.content? e = some content) :
    d.attributes e = List.range' (e + 1 + content.counts.1) content.counts.2 := by
  rw [attributes, h]
  cases content <;> rfl

theorem bindings_of_kind (h : d.kind e ≠ .element) : d.bindings e = [] := by
  rw [bindings]
  split
  · rename_i hc
    exact absurd (kind_of_content? hc) h
  · rfl

theorem attributes_of_kind (h : d.kind e ≠ .element) : d.attributes e = [] := by
  rw [attributes]
  split
  · rename_i hc
    exact absurd (kind_of_content? hc) h
  · rfl

theorem owned_behind (d : Document) (e : Nat) :
    ∃ count, d.bindings e ++ d.attributes e = List.range' (e + 1) count := by
  cases hc : d.content? e with
  | none => exact ⟨0, by simp [bindings, attributes, hc]⟩
  | some content =>
      refine ⟨content.counts.1 + content.counts.2, ?_⟩
      rw [bindings_of_content? hc, attributes_of_content? hc, List.range'_append_1]

/-! ## The open path -/

namespace OpenPath

variable (ho : d.OpenPath path) (h : d.WellBuilt)
include ho h

theorem parent_lt : path.headD View.documentNode < d.size := by
  cases path with
  | nil => exact h.size_pos
  | cons e outer =>
      refine @lt_size_of_kind d e ?_
      rw [ho.kind e (by simp)]
      simp

omit h in
theorem kind_parent :
    path.headD View.documentNode = View.documentNode ∨
      d.kind (path.headD View.documentNode) = .element := by
  cases path with
  | nil => exact .inl rfl
  | cons e outer => exact .inr (ho.kind e (by simp))

/-- The open nodes are the innermost one and what is above it. -/
theorem mem_iff :
    x ∈ path ++ [View.documentNode] ↔
      x = path.headD View.documentNode ∨ d.view.IsAbove x (path.headD View.documentNode) := by
  cases path with
  | nil => simp [View.not_isAbove_of_parent h.parent?_documentNode]
  | cons e outer =>
      rw [List.headD_cons, ← (ho.lineage e outer rfl).mem_iff, List.cons_append, List.mem_cons]

omit h in
theorem tail : d.OpenPath path.tail := by
  refine ⟨fun e outer htail => ?_, fun e he => ho.kind e (List.mem_of_mem_tail he),
    fun x hx => ho.isAbove x ?_⟩
  · cases path with
    | nil => cases htail
    | cons e' path =>
        rw [List.tail_cons] at htail
        subst htail
        cases ho.lineage e' _ rfl with
        | up _ hup => exact hup
  · rcases List.mem_append.mp hx with hx | hx
    · exact List.mem_append_left _ (List.mem_of_mem_tail hx)
    · exact List.mem_append_right _ hx

end OpenPath

/-! ## Nodes of the new document -/

namespace Attached

section
variable (ha : d.Attached d' parent content)
include ha

theorem kind_old (hid : id < d.size) : d'.kind id = d.kind id := by
  rw [kind, kind, ha.content?_old id hid]

theorem kind_new : d'.kind d.size = content.kind := kind_of_content? ha.content?_new

theorem isOwned_old (hid : id < d.size) : d'.view.isOwned id = d.view.isOwned id :=
  congrArg NodeKind.isOwned (ha.kind_old hid)

theorem isOwned_new : d'.view.isOwned d.size = content.kind.isOwned :=
  congrArg NodeKind.isOwned ha.kind_new

theorem isOwned_behind (hid : d.size < id) (hlt : id < d'.size) : d'.view.isOwned id := by
  rw [isOwned_iff]
  by_cases hb : id ≤ d.size + content.counts.1
  · exact .inr (ha.kind_binding id hid hb)
  · exact .inl (ha.kind_attr id (by omega) hlt)

theorem kind_behind (hid : d.size < id) : d'.kind id ≠ .element := by
  by_cases hlt : id < d'.size
  · rcases isOwned_iff.mp (ha.isOwned_behind hid hlt) with hk | hk <;> simp [hk]
  · simp [kind, content?_eq_none (Nat.le_of_not_lt hlt)]

end

/-! ## Parents -/

section
variable (ha : d.Attached d' parent content)
include ha

theorem parent?_cases (hp : d'.view.parent? id = some p) :
    (id < d.size ∧ d.view.parent? id = some p) ∨ (id = d.size ∧ p = parent) ∨
      (d.size < id ∧ id < d'.size ∧ p = d.size) := by
  have hid := lt_size_of_parent? hp
  rcases Nat.lt_trichotomy id d.size with hlt | rfl | hgt
  · rw [ha.parent?_old id hlt] at hp
    exact .inl ⟨hlt, hp⟩
  · rw [ha.parent?_new, Option.some.injEq] at hp
    exact .inr (.inl ⟨rfl, hp.symm⟩)
  · rw [ha.parent?_owned id hgt hid, Option.some.injEq] at hp
    exact .inr (.inr ⟨hgt, hid, hp.symm⟩)

theorem owns_of_size_lt (hgt : d.size < id) (hid : id < d'.size) :
    content.kind = .element := by
  have hsize := ha.size_eq
  cases content <;> simp only [Content.counts] at hsize <;> first | rfl | omega

end

section
variable (ho : d.OpenPath path) (h : d.WellBuilt)
  (ha : d.Attached d' (path.headD View.documentNode) content)
include ho h

theorem lt_size_of_open (hx : x ∈ path ++ [View.documentNode]) : x < d.size := by
  rcases (ho.mem_iff h).mp hx with rfl | habove
  · exact ho.parent_lt h
  · exact Nat.lt_trans (habove.lt h.parent_lt) (ho.parent_lt h)

include ha

theorem parent_lt (id p : Nat) (hp : d'.view.parent? id = some p) : p < id := by
  rcases ha.parent?_cases hp with ⟨_, hp⟩ | ⟨rfl, rfl⟩ | ⟨hgt, _, rfl⟩
  · exact h.parent_lt id p hp
  · exact ho.parent_lt h
  · exact hgt

theorem kind_parent (id p : Nat) (hp : d'.view.parent? id = some p) :
    p = View.documentNode ∨ d'.kind p = .element := by
  rcases ha.parent?_cases hp with ⟨hid, hp⟩ | ⟨rfl, rfl⟩ | ⟨hgt, hid, rfl⟩
  · rw [ha.kind_old (Nat.lt_trans (h.parent_lt id p hp) hid)]
    exact h.kind_parent id p hp
  · rw [ha.kind_old (ho.parent_lt h)]
    exact ho.kind_parent
  · rw [ha.kind_new]
    exact .inr (ha.owns_of_size_lt hgt hid)

theorem exists_parent (hpos : 0 < id) (hid : id < d'.size) :
    ∃ p : Nat, p < id ∧ d'.view.parent? id = some p := by
  rcases Nat.lt_trichotomy id d.size with hlt | rfl | hgt
  · rw [ha.parent?_old id hlt]
    exact h.exists_parent id hpos hlt
  · exact ⟨_, ho.parent_lt h, ha.parent?_new⟩
  · exact ⟨_, hgt, ha.parent?_owned id hgt hid⟩

/-! ## What is above -/

omit ho in
theorem isAbove_old (hid : id < d.size) : d'.view.IsAbove x id ↔ d.view.IsAbove x id :=
  View.isAbove_congr h.parent_lt ha.parent?_old hid

theorem isAbove_new : d'.view.IsAbove x d.size ↔ x ∈ path ++ [View.documentNode] := by
  rw [View.isAbove_iff_of_parent ha.parent?_new, ho.mem_iff h, ha.isAbove_old h (ho.parent_lt h)]

theorem isAbove_behind (hgt : d.size < id) (hid : id < d'.size) :
    d'.view.IsAbove x id ↔ x = d.size ∨ x ∈ path ++ [View.documentNode] := by
  rw [View.isAbove_iff_of_parent (ha.parent?_owned id hgt hid), ha.isAbove_new ho h]

theorem isAbove_of_open (hx : x ∈ path ++ [View.documentNode]) (hlt : x < id)
    (hid : id < d'.size) : d'.view.IsAbove x id := by
  rcases Nat.lt_trichotomy id d.size with hold | rfl | hgt
  · exact (ha.isAbove_old h hold).mpr (ho.isAbove x hx id hlt hold)
  · exact (ha.isAbove_new ho h).mpr hx
  · exact (ha.isAbove_behind ho h hgt hid).mpr (.inr hx)

theorem not_isAbove_of_size_lt (hx : d.size < x) : ¬ d'.view.IsAbove x id := by
  intro habove
  obtain ⟨child, hchild, _⟩ := View.isAbove_iff_child.mp habove
  rcases ha.parent?_cases hchild with ⟨hlt, hp⟩ | ⟨_, rfl⟩ | ⟨_, _, rfl⟩
  · have hxchild := h.parent_lt child x hp
    omega
  · exact Nat.lt_asymm hx (ho.parent_lt h)
  · exact Nat.lt_irrefl _ hx

/-- All that can get children reach to the end, and nothing comes below other nodes any more. -/
theorem subtree (hx : x < d'.size) :
    ∃ stop : Nat, ∀ id : Nat, (id = x ∨ d'.view.IsAbove x id) ↔ x ≤ id ∧ id < stop := by
  have hlt : ∀ {a id : Nat}, d'.view.IsAbove a id → a < id ∧ id < d'.size := fun habove => by
    obtain ⟨p, hp, _⟩ := View.isAbove_iff.mp habove
    exact ⟨habove.lt (ha.parent_lt ho h), lt_size_of_parent? hp⟩
  by_cases hopen : x ∈ path ++ [View.documentNode] ∨ x = d.size
  · refine ⟨d'.size, fun id => ⟨?_, fun ⟨hle, hid⟩ => ?_⟩⟩
    · rintro (rfl | habove)
      · exact ⟨Nat.le_refl _, hx⟩
      · exact ⟨Nat.le_of_lt (hlt habove).1, (hlt habove).2⟩
    · rcases Nat.eq_or_lt_of_le hle with rfl | hxid
      · exact .inl rfl
      · rcases hopen with hopen | rfl
        · exact .inr (ha.isAbove_of_open ho h hopen hxid hid)
        · exact .inr ((ha.isAbove_behind ho h hxid hid).mpr (.inl rfl))
  · obtain ⟨hpath, hne⟩ := not_or.mp hopen
    rcases Nat.lt_or_gt_of_ne hne with hold | hgt
    · obtain ⟨stop, hstop⟩ := h.subtree x hold
      have hle : stop ≤ d.size := Nat.le_of_not_lt fun hgt => by
        rcases (hstop d.size).mpr ⟨by omega, by omega⟩ with heq | habove
        · exact hne heq.symm
        · obtain ⟨p, hp, _⟩ := View.isAbove_iff.mp habove
          exact Nat.lt_irrefl _ (lt_size_of_parent? hp)
      refine ⟨stop, fun id => ?_⟩
      rcases Nat.lt_trichotomy id d.size with hid | rfl | hid
      · rw [ha.isAbove_old h hid, hstop]
      · rw [ha.isAbove_new ho h]
        exact iff_of_false (not_or.mpr ⟨Ne.symm hne, hpath⟩) (by omega)
      · refine iff_of_false (not_or.mpr ⟨by omega, fun habove => ?_⟩) (by omega)
        exact hopen (((ha.isAbove_behind ho h hid (hlt habove).2).mp habove).symm)
    · refine ⟨x + 1, fun id => ?_⟩
      rw [or_iff_left (ha.not_isAbove_of_size_lt ho h hgt)]
      omega

/-! ## Owned nodes -/

omit ho h in
theorem kind_and_parent_old {k : NodeKind} (hk : k ≠ content.kind) (he : e < d.size) :
    d'.kind id = k ∧ d'.view.parent? id = some e ↔ d.kind id = k ∧ d.view.parent? id = some e := by
  rcases Nat.lt_trichotomy id d.size with hlt | rfl | hgt
  · rw [ha.kind_old hlt, ha.parent?_old id hlt]
  · rw [ha.kind_new]
    refine iff_of_false (fun hid => hk hid.1.symm) fun hid => ?_
    exact Nat.lt_irrefl _ (lt_size_of_parent? hid.2)
  · refine iff_of_false (fun hid => ?_) fun hid => ?_
    · rcases ha.parent?_cases hid.2 with ⟨hlt, _⟩ | ⟨rfl, _⟩ | ⟨_, _, rfl⟩ <;> omega
    · have hlt := lt_size_of_parent? hid.2
      omega

theorem kind_and_parent_new {k : NodeKind} (hk : k ≠ .document) :
    d'.kind id = k ∧ d'.view.parent? id = some d.size ↔ d.size < id ∧ d'.kind id = k := by
  constructor
  · rintro ⟨hid, hp⟩
    exact ⟨ha.parent_lt ho h id d.size hp, hid⟩
  · rintro ⟨hgt, hid⟩
    exact ⟨hid, ha.parent?_owned id hgt (lt_size_of_kind (by rwa [hid]))⟩

theorem not_kind_and_parent {k : NodeKind} (he : d.size < e) :
    ¬ (d'.kind id = k ∧ d'.view.parent? id = some e) :=
  fun hid => ha.not_isAbove_of_size_lt ho h he (.parent hid.2)

/-- Nodes of one kind that elements own: they are given for each element that was there, for the
new node, and for nothing behind it. -/
theorem mem_owned {k : NodeKind} {owned owned' : Nat → List Nat} (hk : k ≠ content.kind)
    (hdocument : k ≠ .document)
    (hmem : ∀ e id, id ∈ owned e ↔ d.kind id = k ∧ d.view.parent? id = some e)
    (hold : ∀ e < d.size, owned' e = owned e)
    (hnew : id ∈ owned' d.size ↔ d.size < id ∧ d'.kind id = k)
    (hbehind : d.size < e → owned' e = []) :
    id ∈ owned' e ↔ d'.kind id = k ∧ d'.view.parent? id = some e := by
  rcases Nat.lt_trichotomy e d.size with hlt | rfl | hgt
  · rw [ha.kind_and_parent_old hk hlt, ← hmem, hold e hlt]
  · rw [ha.kind_and_parent_new ho h hdocument, hnew]
  · rw [hbehind hgt]
    exact iff_of_false List.not_mem_nil (ha.not_kind_and_parent ho h hgt)

omit ho h ha in
theorem ne_kind_of_isOwned {k : NodeKind} (howned : content.kind.isOwned = false)
    (hk : k.isOwned) : k ≠ content.kind := by
  rintro rfl
  rw [howned] at hk
  cases hk

variable (howned : content.kind.isOwned = false)
include howned

theorem mem_bindings :
    id ∈ d'.bindings e ↔ d'.kind id = .binding ∧ d'.view.parent? id = some e := by
  refine ha.mem_owned ho h (ne_kind_of_isOwned howned rfl) (by simp) h.mem_bindings
    (fun e hlt => by rw [bindings, bindings, ha.content?_old e hlt]) ?_
    fun hgt => bindings_of_kind (ha.kind_behind hgt)
  rw [bindings_of_content? ha.content?_new, List.mem_range'_1]
  constructor
  · rintro ⟨hle, hlt⟩
    exact ⟨hle, ha.kind_binding id hle (by omega)⟩
  · rintro ⟨hid, hkind⟩
    refine ⟨hid, Nat.lt_of_not_le fun hle => ?_⟩
    have hattr := ha.kind_attr id (by omega) (lt_size_of_kind (by simp [hkind]))
    rw [hkind] at hattr
    cases hattr

theorem mem_attributes :
    id ∈ d'.attributes e ↔ d'.kind id = .attr ∧ d'.view.parent? id = some e := by
  refine ha.mem_owned ho h (ne_kind_of_isOwned howned rfl) (by simp) h.mem_attributes
    (fun e hlt => by rw [attributes, attributes, ha.content?_old e hlt]) ?_
    fun hgt => attributes_of_kind (ha.kind_behind hgt)
  have hsize := ha.size_eq
  rw [attributes_of_content? ha.content?_new, List.mem_range'_1]
  constructor
  · rintro ⟨hle, hlt⟩
    exact ⟨by omega, ha.kind_attr id (by omega) (by omega)⟩
  · rintro ⟨hid, hkind⟩
    have hlt := @lt_size_of_kind d' id (by simp [hkind])
    refine ⟨Nat.le_of_not_lt fun hlt => ?_, by omega⟩
    have hbinding := ha.kind_binding id hid (by omega)
    rw [hkind] at hbinding
    cases hbinding

end

/-! ## Links -/

theorem next_snoc {next? : Nat → Option Nat} {l : List Nat} {new i : Nat} (hl : Ascending l)
    (hnext : ∀ i id, l[i]? = some id → next? id = l[i + 1]?) (hnew : ∀ id ∈ l, id ≠ new)
    (hnone : next? new = none) (hi : (l ++ [new])[i]? = some id) :
    (if l.getLast? = some id then some new else next? id) = (l ++ [new])[i + 1]? := by
  rcases Nat.lt_trichotomy i l.length with hlt | rfl | hgt
  · rw [List.getElem?_append_left hlt] at hi
    by_cases hend : i + 1 = l.length
    · rw [if_pos ((hl.getLast?_eq_some_iff hi).mpr hend), hend, List.getElem?_concat_length]
    · rw [if_neg (mt (hl.getLast?_eq_some_iff hi).mp hend), hnext i id hi,
        List.getElem?_append_left (by omega)]
  · rw [List.getElem?_concat_length, Option.some.injEq] at hi
    subst hi
    rw [if_neg fun hlast => hnew new (List.mem_of_getLast? hlast) rfl, hnone]
    simp
  · rw [List.getElem?_eq_none (by simp; omega)] at hi
    cases hi

theorem prev_snoc {prev? : Nat → Option Nat} {l : List Nat} {new i : Nat}
    (hprev : ∀ i id, l[i]? = some id → prev? id = if i = 0 then none else l[i - 1]?)
    (hnew : ∀ id ∈ l, id ≠ new) (hi : (l ++ [new])[i]? = some id) :
    (if id = new then l.getLast? else prev? id) =
      if i = 0 then none else (l ++ [new])[i - 1]? := by
  rcases Nat.lt_trichotomy i l.length with hlt | rfl | hgt
  · rw [List.getElem?_append_left hlt] at hi
    rw [if_neg (hnew id (List.mem_of_getElem? hi)), hprev i id hi,
      List.getElem?_append_left (by omega)]
  · rw [List.getElem?_concat_length, Option.some.injEq] at hi
    rw [if_pos hi.symm, List.getLast?_eq_getElem?]
    cases l with
    | nil => rfl
    | cons a l => rw [if_neg (by simp), List.getElem?_append_left (by simp)]
  · rw [List.getElem?_eq_none (by simp; omega)] at hi
    cases hi

section
variable (h : d.WellBuilt) (ha : d.Attached d' (path.headD View.documentNode) content)
include h ha

theorem rootElement_eq_find? :
    d'.rootElement = (List.range d'.size).find? fun id =>
      d'.kind id == .element && d'.view.parent? id == some View.documentNode := by
  have hsize := ha.size_eq
  have hold : ((List.range d.size).find? fun id =>
      d'.kind id == .element && d'.view.parent? id == some View.documentNode) = d.rootElement := by
    rw [h.rootElement_eq]
    refine List.find?_congr fun id hid => ?_
    rw [ha.kind_old (List.mem_range.mp hid), ha.parent?_old id (List.mem_range.mp hid)]
  have hbehind : ((List.range' (d.size + 1) (content.counts.1 + content.counts.2)).find? fun id =>
      d'.kind id == .element && d'.view.parent? id == some View.documentNode) = none := by
    refine List.find?_eq_none.mpr fun id hid => ?_
    rw [List.mem_range'_1] at hid
    have hkind : d'.kind id ≠ .element := ha.kind_behind (by omega)
    simp [hkind]
  have hrange : List.range d'.size = List.range d.size ++ [d.size] ++
      List.range' (d.size + 1) (content.counts.1 + content.counts.2) := by
    rw [← List.range_succ, List.range_eq_range', List.range_eq_range', hsize, Nat.add_assoc,
      ← List.range'_append_1, Nat.zero_add]
  rw [ha.rootElement_eq, hrange, List.find?_append, List.find?_append, hold, hbehind,
    Option.or_none, List.find?_singleton, ha.kind_new, ha.parent?_new]
  simp only [Bool.and_eq_true, beq_iff_eq, Option.some.injEq]

variable (howned : content.kind.isOwned = false)
include howned

omit h in
theorem offspring_eq :
    d'.offspring p =
      if p = path.headD View.documentNode then d.offspring p ++ [d.size] else d.offspring p := by
  have hmem : ∀ id, id ∈ d'.offspring p ↔
      id ∈ d.offspring p ∨ (id = d.size ∧ p = path.headD View.documentNode) := by
    intro id
    rw [mem_offspring, mem_offspring]
    constructor
    · rintro ⟨hp, hid⟩
      rcases ha.parent?_cases hp with ⟨hlt, hp⟩ | hnew | ⟨hgt, hlt, _⟩
      · rw [ha.isOwned_old hlt] at hid
        exact .inl ⟨hp, hid⟩
      · exact .inr hnew
      · exact absurd (ha.isOwned_behind hgt hlt) hid
    · rintro (⟨hp, hid⟩ | ⟨rfl, rfl⟩)
      · have hlt := lt_size_of_parent? hp
        rw [ha.parent?_old id hlt, ha.isOwned_old hlt]
        exact ⟨hp, hid⟩
      · exact ⟨ha.parent?_new, by simp [ha.isOwned_new, howned]⟩
  have hlast : ∀ id ∈ d.offspring p, ∀ new ∈ [d.size], id < new := by
    intro id hid new hnew
    rw [List.mem_singleton.mp hnew]
    exact lt_size_of_parent? (mem_offspring.mp hid).1
  split
  · rename_i hp
    refine ascending_offspring.ext (ascending_offspring.append (by simp) hlast) fun id => ?_
    rw [hmem, and_iff_left hp, List.mem_append, List.mem_singleton]
  · rename_i hp
    refine ascending_offspring.ext ascending_offspring fun id => ?_
    rw [hmem, or_iff_left fun hnew => hp hnew.2]

theorem linked : d'.Linked p (d'.offspring p) := by
  have hlast := (h.linked (path.headD View.documentNode)).last
  have hold := h.linked p
  have hlt : ∀ id ∈ d.offspring p, id ≠ d.size := fun id hid =>
    Nat.ne_of_lt (lt_size_of_parent? (mem_offspring.mp hid).1)
  rw [ha.offspring_eq howned]
  split
  · rename_i hp
    subst hp
    refine ⟨?_, ?_, fun i id hi => ?_, fun i id hi => ?_⟩
    · rw [ha.firstChild?, if_pos rfl, hold.first, List.head?_append]
      rfl
    · rw [ha.lastChild?, if_pos rfl, List.getLast?_append]
      rfl
    · have hnone : d.nextSibling? d.size = none :=
        (h.unlinked d.size (.inl (parent?_eq_none (Nat.le_refl _)))).1
      rw [ha.nextSibling?, hlast]
      exact next_snoc ascending_offspring hold.next hlt hnone hi
    · rw [ha.prevSibling?, hlast]
      exact prev_snoc hold.prev hlt hi
  · rename_i hp
    refine ⟨?_, ?_, fun i id hi => ?_, fun i id hi => ?_⟩
    · rw [ha.firstChild?, if_neg hp, hold.first]
    · rw [ha.lastChild?, if_neg hp, hold.last]
    · have hid := (mem_offspring.mp (List.mem_of_getElem? hi)).1
      rw [ha.nextSibling?, if_neg, hold.next i id hi]
      intro heq
      rw [hlast] at heq
      have hparent := (mem_offspring.mp (List.mem_of_getLast? heq)).1
      rw [hid, Option.some.injEq] at hparent
      exact hp hparent
    · rw [ha.prevSibling?, if_neg (hlt id (List.mem_of_getElem? hi)), hold.prev i id hi]

theorem unlinked (hid : d'.view.parent? id = none ∨ d'.view.isOwned id) :
    d'.nextSibling? id = none ∧ d'.view.prevSibling? id = none := by
  have hold : d.view.parent? id = none ∨ d.view.isOwned id := by
    rcases Nat.lt_or_ge id d.size with hlt | hge
    · rwa [ha.parent?_old id hlt, ha.isOwned_old hlt] at hid
    · exact .inl (parent?_eq_none hge)
  have hne : id ≠ d.size := by
    rintro rfl
    simp [ha.parent?_new, ha.isOwned_new, howned] at hid
  have hlast : d.lastChild? (path.headD View.documentNode) ≠ some id := by
    rw [(h.linked _).last]
    intro heq
    obtain ⟨hp, hnot⟩ := mem_offspring.mp (List.mem_of_getLast? heq)
    rcases hold with hnone | howned
    · rw [hnone] at hp
      cases hp
    · exact hnot howned
  rw [ha.nextSibling?, if_neg hlast, ha.prevSibling?, if_neg hne]
  exact h.unlinked id hold

end

/-! ## The new document -/

section
variable (ho : d.OpenPath path) (h : d.WellBuilt)
  (ha : d.Attached d' (path.headD View.documentNode) content)
include ho h ha

theorem wellBuilt (howned : content.kind.isOwned = false) : d'.WellBuilt where
  content?_documentNode := (ha.content?_old _ h.size_pos).trans h.content?_documentNode
  parent?_documentNode := (ha.parent?_old _ h.size_pos).trans h.parent?_documentNode
  exists_parent _ := ha.exists_parent ho h
  kind_parent := ha.kind_parent ho h
  owned_behind := owned_behind d'
  mem_bindings _ _ := ha.mem_bindings ho h howned
  mem_attributes _ _ := ha.mem_attributes ho h howned
  linked _ := ha.linked h howned
  unlinked _ := ha.unlinked h howned
  subtree _ := ha.subtree ho h
  rootElement_eq := ha.rootElement_eq_find? h

theorem openPath : d'.OpenPath path := by
  refine ⟨fun e outer hpath => ?_, fun e he => ?_, fun x hx id => ha.isAbove_of_open ho h hx⟩
  · have hlt : e < d.size := lt_size_of_open ho h (by simp [hpath])
    exact (ho.lineage e outer hpath).congr h.parent_lt ha.parent?_old hlt
  · rw [ha.kind_old (lt_size_of_open ho h (List.mem_append_left _ he)), ho.kind e he]

theorem openPath_cons (hkind : content.kind = .element) : d'.OpenPath (d.size :: path) := by
  refine ⟨fun e outer hpath => ?_, fun e he => ?_, fun x hx id hlt hid => ?_⟩
  · obtain ⟨rfl, rfl⟩ := List.cons.inj hpath
    cases path with
    | nil => exact .up ha.parent?_new (.top ((ha.parent?_old _ h.size_pos).trans
        h.parent?_documentNode))
    | cons e outer => exact .up ha.parent?_new ((ha.openPath ho h).lineage e outer rfl)
  · rcases List.mem_cons.mp he with rfl | he
    · rw [ha.kind_new, hkind]
    · exact (ha.openPath ho h).kind e he
  · rcases List.mem_cons.mp hx with rfl | hx
    · exact (ha.isAbove_behind ho h hlt hid).mpr (.inl rfl)
    · exact ha.isAbove_of_open ho h hx hlt hid

end

end Attached

end Document

end TreeQuery
