import Mathlib.Data.List.Perm.Subperm
import TreeQuery.Proofs.Tree.Scope
import TreeQuery.Proofs.Tree.Stored.Builder
import TreeQuery.Proofs.Tree.Traversal

/-!
Namespaces in a document that events describe. Where a prefix is declared is told by the attributes
that the events write on an element and on the elements above it; no scope is part of that. The
names and the bindings in the document agree with it, as long as elements are not nested too deep
and do not have too many bindings in force, and with the names that the events write.
-/
namespace TreeQuery

/-! ## Declarations in a tree -/

/-- The attributes that an event writes on an element. -/
def Event.attrs? : Event → Option WrittenAttrs
  | .start _ attrs | .empty _ attrs => some attrs
  | _ => none

/-- The name that an event writes on an element. -/
def Event.name? : Event → Option String
  | .start name _ | .empty name _ => some name
  | _ => none

/-- The event that adds a node, when the events give the listed numbers. -/
def Event.adding? (id : NodeId) : List (Option NodeId) → List Event → Option Event
  | given :: ids, event :: events =>
    if given = some id then some event else adding? id ids events
  | _, _ => none

/-- The attributes that events write on an element, when the events give the listed numbers. -/
def Event.writtenOn (e : NodeId) : List (Option NodeId) → List Event → WrittenAttrs
  | id :: ids, event :: events =>
    if id = some e then event.attrs?.getD [] else writtenOn e ids events
  | _, _ => []

/-- The attributes that the events of a document write on an element. -/
def Document.written (events : List Event) (e : NodeId) : WrittenAttrs :=
  Event.writtenOn e (Builder.initial.feedAll events).1 events

namespace View

variable (v : View) (name? : NodeId → Option String) (written : NodeId → WrittenAttrs)

/-- The node is named as it is written: its prefix and its local part are the two sides of the first
colon. -/
def HasName (id : NodeId) (text : String) : Prop :=
  ∃ localPart, v.localName? id = some localPart ∧ QName.Parts text ((v.pfx? id).getD "") localPart

/-- An attribute of the element declares the prefix. -/
def DeclaresOn (owner : NodeId) (pfx : String) : Prop := ∃ attr ∈ written owner, Declares pfx attr.1

/-- The declaration of a prefix that counts for an element: the last one on the nearest element
that has one, which is the element itself or above it. It is the attribute of the given index. -/
structure MadeAt (e : NodeId) (pfx uri : String) (owner : NodeId) (index : Nat) : Prop where
  on : owner = e ∨ v.IsAbove owner e
  declares : ∃ name, (written owner)[index]? = some (name, uri) ∧ Declares pfx name
  last : ∀ i name value, (written owner)[i]? = some (name, value) → Declares pfx name → i ≤ index
  nearest : ∀ x, x = e ∨ v.IsAbove x e → v.IsAbove owner x → ¬ DeclaresOn written x pfx

/-- The element binds the prefix to the URI. The reserved prefixes have theirs everywhere, and a
declaration of the empty URI takes other prefixes back. -/
def Binds (e : NodeId) (pfx uri : String) : Prop :=
  (pfx = "xml" ∧ uri = Namespace.xml) ∨ (pfx = "xmlns" ∧ uri = Namespace.xmlns) ∨
    (Scope.isReserved pfx = false ∧ uri ≠ "" ∧
      ∃ owner index, v.MadeAt written e pfx uri owner index)

/-- An element and its attributes have the names that are written; the URIs of these names and the
bindings behind the element are what its declarations say. -/
structure Named (e : NodeId) : Prop where
  elementName : ∃ text, name? e = some text ∧ v.HasName e text
  attrNames : List.Forall₂ (fun a attr => v.HasName a attr.1 ∧ v.value? a = some attr.2)
    (v.attributes e) (Builder.plainAttrs (written e))
  elementUri : ∀ uri, v.uri? e = some uri ↔ v.Binds written e ((v.pfx? e).getD "") uri
  attrUri : ∀ a ∈ v.attributes e, ∀ uri,
    v.uri? a = some uri ↔ ∃ pfx, v.pfx? a = some pfx ∧ v.Binds written e pfx uri
  bindings_iff : ∀ pfx uri, (∃ n ∈ v.bindings e, v.name? n = some pfx ∧ v.stringValue n = uri) ↔
    Scope.isReserved pfx = false ∧ v.Binds written e pfx uri
  /-- Each prefix has one binding, and the declarations that count stand in the same order. -/
  order : (v.bindings e).Pairwise fun n m => ∀ pfx pfx', v.name? n = some pfx →
    v.name? m = some pfx' → pfx ≠ pfx' ∧ ∀ uri uri' owner owner' i j,
      v.MadeAt written e pfx uri owner i → v.MadeAt written e pfx' uri' owner' j →
        v.IsAbove owner owner' ∨ (owner = owner' ∧ i < j)

/-- Elements are nested less deep than words count. -/
def Shallow : Prop :=
  ∀ e, v.kind e = .element → (v.ancestors e).length < Builder.wordMax

/-- No element has as many prefixes in force as words count up to. -/
def FewBindings : Prop :=
  ∀ e, v.kind e = .element → ∀ pfxs : List String, pfxs.Nodup →
    (∀ pfx ∈ pfxs, Scope.isReserved pfx = false ∧ ∃ uri, v.Binds written e pfx uri) →
      pfxs.length < Builder.wordMax

end View

/-! ## Declarations on the way up -/

namespace View

variable {v : View} {written : NodeId → WrittenAttrs} {e x y owner index : Nat} {path : List NodeId}
  {pfx uri : String} {s t : Scope.Site}

/-- Of two nodes on the way up the one with the smaller number is above the other. -/
theorem Lineage.isAbove_of_lt {l : List NodeId} (h : v.Lineage e l)
    (hlt : ∀ id p : Nat, v.parent? id = some p → p < id) (hx : x ∈ e :: l) (hy : y ∈ e :: l)
    (hxy : x < y) : v.IsAbove x y := by
  induction h with
  | top h =>
      simp only [List.mem_cons, List.not_mem_nil, or_false] at hx hy
      subst hx hy
      exact absurd hxy (Nat.lt_irrefl _)
  | @up e p above hp hup ih =>
      have hwhole := Lineage.up hp hup
      rcases List.mem_cons.mp hy with rfl | hy'
      · rcases List.mem_cons.mp hx with rfl | hx
        · exact absurd hxy (Nat.lt_irrefl _)
        · exact hwhole.mem_iff.mp hx
      · rcases List.mem_cons.mp hx with rfl | hx
        · exact absurd hxy (Nat.lt_asymm ((hwhole.mem_iff.mp hy').lt hlt))
        · exact ih hx hy'

section
variable (hlineage : v.Lineage e (path ++ [View.documentNode]))
  (hlt : ∀ id p : Nat, v.parent? id = some p → p < id) (hwritten : written View.documentNode = [])
include hlineage

theorem mem_path_iff (howner : owner ≠ View.documentNode) :
    owner ∈ e :: path ↔ owner = e ∨ v.IsAbove owner e := by
  rw [← hlineage.mem_iff, List.mem_cons, List.mem_append, List.mem_singleton, or_iff_left howner]

include hlt

theorem pairwise_path : (e :: path).Pairwise (· > ·) :=
  (List.pairwise_append.mp (hlineage.pairwise hlt)).1

theorem isAbove_or_of_before (hs : s.owner ∈ e :: path) (ht : t.owner ∈ e :: path)
    (h : s.Before t) : v.IsAbove s.owner t.owner ∨ (s.owner = t.owner ∧ s.index < t.index) := by
  refine h.imp_left fun howner => hlineage.isAbove_of_lt hlt ?_ ?_ howner
  · exact List.mem_append_left [View.documentNode] hs
  · exact List.mem_append_left [View.documentNode] ht

include hwritten

omit hlt in
theorem mem_path_of_declares {name value : String}
    (hget : (written owner)[index]? = some (name, value)) (hon : owner = e ∨ v.IsAbove owner e) :
    owner ∈ e :: path := by
  refine (mem_path_iff hlineage ?_).mpr hon
  rintro rfl
  rw [hwritten] at hget
  cases hget

/-- The first site of a prefix among those with the last ones first is the declaration that
counts. -/
theorem madeAt_of_find?
    (hs : (Scope.sites written (e :: path)).find? (·.pfx == pfx) = some s) :
    s.owner ∈ e :: path ∧ v.MadeAt written e pfx s.uri s.owner s.index := by
  obtain ⟨hmem, rfl, hlast⟩ :=
    Scope.last_of_find? (Scope.pairwise_sites (pairwise_path hlineage hlt)) hs
  obtain ⟨howner, hreserved, name, hget, hdeclares⟩ := Scope.mem_sites hmem
  have hon : s.owner = e ∨ v.IsAbove s.owner e := by
    rcases List.mem_cons.mp howner with h | h
    · exact .inl h
    · exact .inr (hlineage.mem_iff.mp (List.mem_append_left _ h))
  refine ⟨howner, hon, ⟨name, hget, hdeclares⟩, fun i name' value hget' hdeclares' => ?_,
    fun x hx hsx => ?_⟩
  · obtain ⟨depth, ht⟩ := Scope.exists_mem_sites howner hreserved hget' hdeclares'
    rcases hlast _ ht rfl with heq | hbefore
    · rw [← heq]
    · rcases hbefore with hbefore | ⟨_, hbefore⟩
      · exact absurd hbefore (Nat.lt_irrefl _)
      · exact Nat.le_of_lt hbefore
  · rintro ⟨⟨name', value⟩, hattr, hdeclares'⟩
    obtain ⟨i, hget'⟩ := List.getElem?_of_mem hattr
    have hpath := mem_path_of_declares hlineage hwritten hget' hx
    obtain ⟨depth, ht⟩ := Scope.exists_mem_sites hpath hreserved hget' hdeclares'
    have hback := hsx.lt hlt
    rcases hlast _ ht rfl with heq | hbefore
    · rw [← heq] at hback
      exact Nat.lt_irrefl _ hback
    · rcases hbefore with hbefore | ⟨heq, _⟩
      · exact Nat.lt_asymm hback hbefore
      · exact Nat.ne_of_lt hback heq.symm

theorem find?_of_madeAt (hreserved : Scope.isReserved pfx = false)
    (h : v.MadeAt written e pfx uri owner index) :
    ∃ s, (Scope.sites written (e :: path)).find? (·.pfx == pfx) = some s ∧ s.uri = uri ∧
      s.owner = owner ∧ s.index = index := by
  obtain ⟨name, hget, hdeclares⟩ := h.declares
  have howner := mem_path_of_declares hlineage hwritten hget h.on
  obtain ⟨depth, hmem⟩ := Scope.exists_mem_sites howner hreserved hget hdeclares
  cases hfind : (Scope.sites written (e :: path)).find? (·.pfx == pfx) with
  | none => exact absurd (beq_self_eq_true pfx) (List.find?_eq_none.mp hfind _ hmem)
  | some t =>
      have hpairwise := @Scope.pairwise_sites written _ (pairwise_path hlineage hlt)
      obtain ⟨ht, htpfx, hlast⟩ := Scope.last_of_find? hpairwise hfind
      obtain ⟨htowner, _, name', hget', hdeclares'⟩ := Scope.mem_sites ht
      rw [htpfx] at hdeclares'
      rcases hlast _ hmem rfl with rfl | hbefore
      · exact ⟨_, rfl, rfl, rfl, rfl⟩
      · rcases isAbove_or_of_before hlineage hlt howner htowner hbefore with habove | ⟨heq, hindex⟩
        · have hon := ((madeAt_of_find? hlineage hlt hwritten hfind).2).on
          exact absurd ⟨_, List.mem_of_getElem? hget', hdeclares'⟩ (h.nearest _ hon habove)
        · change owner = t.owner at heq
          subst heq
          exact absurd hindex (Nat.not_lt_of_le (h.last _ _ _ hget' hdeclares'))

/-- A scope inside nested elements resolves prefixes as their declarations say. -/
theorem resolve?_eq_some_iff :
    (Scope.within ((e :: path).map written)).resolve? pfx = some uri ↔
      v.Binds written e pfx uri := by
  cases hreserved : Scope.isReserved pfx with
  | true =>
      have hxml : Scope.initial.resolve? "xml" = some Namespace.xml := by decide
      have hxmlns : Scope.initial.resolve? "xmlns" = some Namespace.xmlns := by decide
      rw [Scope.resolve?_within_reserved hreserved, Binds, hreserved]
      simp only [Scope.isReserved, Bool.or_eq_true, beq_iff_eq] at hreserved
      rcases hreserved with rfl | rfl
      · simp [hxml, eq_comm]
      · simp [hxmlns, eq_comm]
  | false =>
      have hreserved' := hreserved
      simp only [Scope.isReserved, Bool.or_eq_false_iff, beq_eq_false_iff_ne] at hreserved'
      rw [Scope.resolve?_within hreserved, Binds, or_iff_right fun h => hreserved'.1 h.1,
        or_iff_right fun h => hreserved'.2 h.1, and_iff_right hreserved, Option.filter_eq_some_iff,
        Option.map_eq_some_iff, and_comm, bne_iff_ne]
      refine and_congr_right fun _ => ⟨?_, ?_⟩
      · rintro ⟨s, hs, rfl⟩
        exact ⟨s.owner, s.index, (madeAt_of_find? hlineage hlt hwritten hs).2⟩
      · rintro ⟨owner, index, h⟩
        obtain ⟨s, hs, huri, _, _⟩ := find?_of_madeAt hlineage hlt hwritten hreserved h
        exact ⟨s, hs, huri⟩

end

end View

/-! ## Elements under construction -/

namespace Builder

open Scope (within)

/-- The element stands inside the listed ones, and it and the nodes behind it are made in their
scope. -/
structure Composed (d : Document) (written : NodeId → WrittenAttrs) (e : Nat) (path : List NodeId)
    (scope : Scope) : Prop where
  lineage : d.view.Lineage e (path ++ [View.documentNode])
  scope_eq : scope = within ((e :: path).map written)
  content? : ∃ name, d.content? e = some (.element (elementName scope name)
    (scope.bindings.take wordMax).length (plainAttrs (written e)).length)
  owned : ∀ i c, (ownedContents scope (written e))[i]? = some c → d.content? (e + 1 + i) = some c

/-- Between two events: the scope is that of the open elements, and all elements are made in
theirs. -/
structure Tracked (b : Builder) (written : NodeId → WrittenAttrs) : Prop where
  scope_eq : b.scope = within (b.openElements.map written)
  composed : ∀ e, b.finish.kind e = .element → ∃ path scope, Composed b.finish written e path scope

/-- The given attributes are those that the next events write on elements. -/
def Writes (written : NodeId → WrittenAttrs) (b : Builder) : List Event → Prop
  | [] => True
  | event :: events =>
    (∀ attrs, event.attrs? = some attrs → written b.nodes.size = attrs) ∧
      Writes written (b.feed event).2 events

variable {b b' : Builder} {written : NodeId → WrittenAttrs} {e : Nat} {path : List NodeId}
  {scope : Scope}

/-! ### Nodes that stay -/

theorem Keeps.content? (h : b.Keeps b') {c : Content} (hc : b.finish.content? e = some c) :
    b'.finish.content? e = some c := by
  obtain ⟨n, hn, rfl⟩ := Option.map_eq_some_iff.mp hc
  obtain ⟨n', hn', hcontent, _, _⟩ := h e n hn
  rw [← hcontent]
  exact congrArg (Option.map Node.content) hn'

theorem Keeps.parent? (h : b.Keeps b') (he : e < b.nodes.size) :
    b'.finish.view.parent? e = b.finish.view.parent? e := by
  obtain ⟨n', hn', _, hparent, _⟩ := h e _ (Array.getElem?_eq_getElem he)
  have hold : b.finish.view.parent? e = b.nodes[e].parent :=
    congrArg (fun n => n.bind Node.parent) (Array.getElem?_eq_getElem he)
  rw [hold, ← hparent]
  exact congrArg (fun n => n.bind Node.parent) hn'

theorem Keeps.kind (h : b.Keeps b') (he : e < b.nodes.size) :
    b'.finish.kind e = b.finish.kind e := by
  obtain ⟨c, hc⟩ := Document.content?_isSome.mpr (show e < b.finish.size from he)
  rw [Document.kind_of_content? hc, Document.kind_of_content? (h.content? hc)]

theorem Keeps.lineage (h : b.Keeps b') (hb : b.Sound) (he : e < b.nodes.size)
    (hl : b.finish.view.Lineage e path) : b'.finish.view.Lineage e path :=
  hl.congr hb.wellBuilt.parent_lt (fun _ => h.parent?) he

theorem Composed.keeps (hc : Composed b.finish written e path scope) (hb : b.Sound)
    (h : b.Keeps b') : Composed b'.finish written e path scope := by
  obtain ⟨name, hcontent⟩ := hc.content?
  have he : e < b.nodes.size := Document.lt_size_of_content? hcontent
  exact ⟨h.lineage hb he hc.lineage, hc.scope_eq, ⟨name, h.content? hcontent⟩,
    fun i c hic => h.content? (hc.owned i c hic)⟩

/-! ### One event -/

section
variable {name : String} {attrs : WrittenAttrs}
  (hnodes : b'.nodes = (b.openElement name attrs).2.nodes)
include hnodes

theorem content?_openElement : b'.finish.content? b.nodes.size =
    some (.element (elementName (innerScope b.scope attrs) name)
      ((innerScope b.scope attrs).bindings.take wordMax).length (plainAttrs attrs).length) := by
  have hgrown : b'.finish.nodes = _ := hnodes.trans (b.openElement_nodes name attrs)
  exact congrArg (Option.map Node.content) (b.node?_new hgrown)

theorem content?_owned {i : Nat} {c : Content}
    (hc : (ownedContents (innerScope b.scope attrs) attrs)[i]? = some c) :
    b'.finish.content? (b.nodes.size + 1 + i) = some c := by
  have hgrown : b'.finish.nodes = _ := hnodes.trans (b.openElement_nodes name attrs)
  rw [Document.content?, b.node?_owned hgrown (by omega), Nat.add_sub_cancel_left, hc]
  rfl

end

/-- An element that opens is made in the scope of the elements around it. -/
theorem composed_openElement {name : String} {attrs : WrittenAttrs} (hb : b.Sound)
    (hscope : b.scope = within (b.openElements.map written)) (hattrs : written b.nodes.size = attrs)
    (hnodes : b'.nodes = (b.openElement name attrs).2.nodes) :
    Composed b'.finish written b.nodes.size b.openElements (innerScope b.scope attrs) := by
  have hlineage : b'.finish.view.Lineage b.nodes.size (b.openElements ++ [View.documentNode]) := by
    obtain ⟨content, hkind, hgrows⟩ := b.grows_openElement name attrs
    have hopen := (hgrows.attached hb).openPath_cons hb.openPath hb.wellBuilt hkind
    have hup := hopen.lineage _ _ rfl
    have hview : ∀ id, b'.finish.view.parent? id =
        (b.openElement name attrs).2.finish.view.parent? id := fun id =>
      congrArg (fun nodes : Array Node => (nodes[id]?).bind Node.parent) hnodes
    have hlt := (hgrows.attached hb).parent_lt hb.openPath hb.wellBuilt
    exact hup.congr hlt (fun id _ => hview id) (Nat.lt_succ_self _)
  refine ⟨hlineage, ?_, ⟨name, ?_⟩, fun i c hc => ?_⟩
  · rw [List.map_cons, within, hattrs, hscope]
  · rw [hattrs]
    exact content?_openElement hnodes
  · rw [hattrs] at hc
    exact content?_owned hnodes hc

theorem Grows.kind_cases {content : Content} (hg : b.Grows b' content) (hb : b.Sound)
    (he : b'.finish.kind e = .element) :
    (e < b.nodes.size ∧ b.finish.kind e = .element) ∨
      (e = b.nodes.size ∧ content.kind = .element) := by
  have ha := hg.attached hb
  rcases Nat.lt_trichotomy e b.nodes.size with hlt | rfl | hgt
  · exact .inl ⟨hlt, (ha.kind_old hlt).symm.trans he⟩
  · exact .inr ⟨rfl, ha.kind_new.symm.trans he⟩
  · exact absurd he (ha.kind_behind hgt)

theorem Tracked.opened {name : String} {attrs : WrittenAttrs} (ht : b.Tracked written)
    (hb : b.Sound) (hattrs : written b.nodes.size = attrs) :
    (b.openElement name attrs).2.Tracked written := by
  obtain ⟨content, hkind, hgrows⟩ := b.grows_openElement name attrs
  refine ⟨?_, fun e he => ?_⟩
  · change innerScope b.scope attrs = within ((b.nodes.size :: b.openElements).map written)
    rw [List.map_cons, within, hattrs, ht.scope_eq]
  · rcases hgrows.kind_cases hb he with ⟨hlt, hold⟩ | ⟨rfl, _⟩
    · obtain ⟨path, scope, hc⟩ := ht.composed e hold
      exact ⟨path, scope, hc.keeps hb hgrows.keeps⟩
    · exact ⟨_, _, composed_openElement hb ht.scope_eq hattrs rfl⟩

/-- The element is made of the name that the event writes. -/
def MadeBy (d : Document) (e : NodeId) (event : Event) : Prop :=
  ∃ name scope bindings attrs, event.name? = some name ∧
    d.content? e = some (.element (elementName scope name) bindings attrs)

theorem MadeBy.keeps {event : Event} (hm : MadeBy b.finish e event) (h : b.Keeps b') :
    MadeBy b'.finish e event := by
  obtain ⟨name, scope, bindings, attrs, hname, hcontent⟩ := hm
  exact ⟨name, scope, bindings, attrs, hname, h.content? hcontent⟩

/-- Only starts make new elements. -/
theorem madeBy_feed (hb : b.Sound) {event : Event} (he : b.nodes.size ≤ e)
    (hkind : (b.feed event).2.finish.kind e = .element) :
    (b.feed event).1 = some e ∧ MadeBy (b.feed event).2.finish e event := by
  cases event with
  | start name attrs =>
      obtain ⟨content, -, hgrows⟩ := b.grows_openElement name attrs
      rcases hgrows.kind_cases hb hkind with ⟨hlt, _⟩ | ⟨rfl, _⟩
      · exact absurd hlt (Nat.not_lt_of_ge he)
      · exact ⟨rfl, name, _, _, _, rfl, content?_openElement rfl⟩
  | close =>
      change b.closeElement.finish.kind e = .element at hkind
      rw [finish_closeElement] at hkind
      have hlt : e < b.nodes.size := @Document.lt_size_of_kind b.finish e (by rw [hkind]; decide)
      exact absurd hlt (Nat.not_lt_of_ge he)
  | empty name attrs =>
      obtain ⟨content, -, hgrows⟩ := b.grows_openElement name attrs
      have hnodes := congrArg Document.nodes (b.openElement name attrs).2.finish_closeElement
      rcases hgrows.closeElement.kind_cases hb hkind with ⟨hlt, _⟩ | ⟨rfl, _⟩
      · exact absurd hlt (Nat.not_lt_of_ge he)
      · exact ⟨rfl, name, _, _, _, rfl, content?_openElement hnodes⟩
  | text | cdata | comment | doctype | declaration | instruction =>
      rcases (b.grows_addChild _ rfl (by simp [Content.kind]) rfl).kind_cases hb hkind with
        ⟨hlt, _⟩ | ⟨_, hchild⟩
      · exact absurd hlt (Nat.not_lt_of_ge he)
      · cases hchild

/-- Elements are not nested too deep. -/
def NotDeep (b : Builder) : Prop :=
  ∀ e path, b.finish.kind e = .element →
    b.finish.view.Lineage e (path ++ [View.documentNode]) → path.length + 1 < wordMax

theorem NotDeep.of_keeps (h : b'.NotDeep) (hb : b.Sound) (hk : b.Keeps b') : b.NotDeep := by
  intro e path he hl
  have hlt : e < b.nodes.size := @Document.lt_size_of_kind b.finish e (by rw [he]; decide)
  exact h e path ((hk.kind hlt).trans he) (hk.lineage hb hlt hl)

theorem Tracked.closed (ht : b.Tracked written) (hb : b.Sound) (hdeep : b.NotDeep) :
    b.closeElement.Tracked written := by
  cases hopen : b.openElements with
  | nil =>
      have hsame : b.closeElement = b := by rw [closeElement, hopen]
      rwa [hsame]
  | cons e outer =>
      have hclose : b.closeElement = { b with openElements := outer, scope := b.scope.pop } := by
        rw [closeElement, hopen]
      have hlength := hdeep e outer (hb.openPath.kind e (by simp [hopen]))
        (hb.openPath.lineage e outer hopen)
      rw [hclose]
      refine ⟨?_, ht.composed⟩
      change b.scope.pop = within (outer.map written)
      rw [ht.scope_eq, hopen, Scope.pop_within (Nat.lt_of_succ_lt hlength)]

theorem Tracked.leaf (ht : b.Tracked written) (hb : b.Sound) {content : Content}
    (hcounts : content.counts = (0, 0)) (helement : content.kind ≠ .element)
    (howned : content.kind.isOwned = false) : (b.addLeaf content).2.Tracked written := by
  have hgrows := b.grows_addChild content hcounts helement howned
  refine ⟨ht.scope_eq, fun e he => ?_⟩
  rcases hgrows.kind_cases hb he with ⟨_, hold⟩ | ⟨_, hkind⟩
  · obtain ⟨path, scope, hc⟩ := ht.composed e hold
    exact ⟨path, scope, hc.keeps hb hgrows.keeps⟩
  · exact absurd hkind helement

theorem Sound.feed (hb : b.Sound) (event : Event) : (b.feed event).2.Sound :=
  hb.fed (b.fed_feed event)

theorem Sound.openElement (hb : b.Sound) (name : String) (attrs : WrittenAttrs) :
    (b.openElement name attrs).2.Sound := hb.feed (.start name attrs)

/-- What one event does to names and scopes. -/
theorem Tracked.feed {event : Event} (ht : b.Tracked written) (hb : b.Sound)
    (hwrites : ∀ attrs, event.attrs? = some attrs → written b.nodes.size = attrs)
    (hdeep : (b.feed event).2.NotDeep) : (b.feed event).2.Tracked written := by
  cases event with
  | start name attrs => exact ht.opened hb (hwrites attrs rfl)
  | close =>
      exact ht.closed hb (hdeep.of_keeps hb (b.fed_feed .close).keeps)
  | empty name attrs =>
      refine (ht.opened hb (hwrites attrs rfl)).closed (hb.openElement name attrs) ?_
      exact hdeep.of_keeps (hb.openElement name attrs)
        ((b.openElement name attrs).2.fed_feed .close).keeps
  | text | cdata | comment | doctype | declaration | instruction =>
      exact ht.leaf hb rfl (by simp [Content.kind]) rfl

theorem Tracked.feedAll {events : List Event} (ht : b.Tracked written) (hb : b.Sound)
    (hwrites : Writes written b events) (hdeep : (b.feedAll events).2.NotDeep) :
    (b.feedAll events).2.Tracked written := by
  induction events generalizing b with
  | nil => exact ht
  | cons event events ih =>
      have hsound := hb.feed event
      exact ih (ht.feed hb hwrites.1 (hdeep.of_keeps hsound (keeps_feedAll _ events))) hsound
        hwrites.2 hdeep

theorem tracked_initial : initial.Tracked written :=
  ⟨rfl, fun e he => absurd ((kind_initial e).symm.trans he) (by decide)⟩

/-! ### What the events write -/

/-- Every element that events make is made by the event that adds it. -/
theorem madeBy_feedAll (hb : b.Sound) {events : List Event} (he : b.nodes.size ≤ e)
    (hkind : (b.feedAll events).2.finish.kind e = .element) :
    ∃ event, Event.adding? e (b.feedAll events).1 events = some event ∧
      MadeBy (b.feedAll events).2.finish e event := by
  induction events generalizing b with
  | nil =>
      have hlt : e < b.nodes.size := @Document.lt_size_of_kind b.finish e (by
        rw [show b.finish.kind e = .element from hkind]
        decide)
      exact absurd hlt (Nat.not_lt_of_ge he)
  | cons event events ih =>
      have hkeeps := (b.feed event).2.keeps_feedAll events
      rw [feedAll, Event.adding?]
      by_cases hnew : e < (b.feed event).2.nodes.size
      · obtain ⟨hid, hmade⟩ := madeBy_feed hb he ((hkeeps.kind hnew).symm.trans hkind)
        rw [if_pos hid]
        exact ⟨event, rfl, hmade.keeps hkeeps⟩
      · have hother : (b.feed event).1 ≠ some e := by
          rcases b.feed_first_new event with ⟨_, hid, _⟩ | ⟨_, hid, hlt⟩
          · simp [hid]
          · rw [hid]
            simp only [ne_eq, Option.some.injEq]
            omega
        rw [if_neg hother]
        exact ih (hb.feed event) (Nat.le_of_not_lt hnew) hkind

theorem Writes.congr {other : NodeId → WrittenAttrs} {events : List Event}
    (h : Writes written b events) (hsame : ∀ e ≥ b.nodes.size, other e = written e) :
    Writes other b events := by
  induction events generalizing b with
  | nil => trivial
  | cons event events ih =>
      have hsize : b.nodes.size ≤ (b.feed event).2.nodes.size := by
        rcases b.feed_first_new event with ⟨_, _, hfinish⟩ | ⟨_, _, hlt⟩
        · exact Nat.le_of_eq (congrArg (fun d : Document => d.nodes.size) hfinish).symm
        · exact Nat.le_of_lt hlt
      exact ⟨fun attrs hattrs => (hsame _ (Nat.le_refl _)).trans (h.1 attrs hattrs),
        ih h.2 fun e he => hsame e (Nat.le_trans hsize he)⟩

/-- Events write nothing on elements that are there before them. -/
theorem writtenOn_old (events : List Event) (he : e < b.nodes.size) :
    Event.writtenOn e (b.feedAll events).1 events = [] := by
  induction events generalizing b with
  | nil => rfl
  | cons event events ih =>
      simp only [feedAll, Event.writtenOn]
      rcases b.feed_first_new event with ⟨_, hid, hfinish⟩ | ⟨_, hid, hlt⟩
      · rw [hid, if_neg (by simp)]
        exact ih ((congrArg (fun d : Document => d.nodes.size) hfinish).symm ▸ he)
      · rw [hid, if_neg (by simp only [Option.some.injEq]; omega)]
        exact ih (Nat.lt_trans he hlt)

theorem writes_writtenOn (b : Builder) (events : List Event) :
    Writes (fun e => Event.writtenOn e (b.feedAll events).1 events) b events := by
  induction events generalizing b with
  | nil => trivial
  | cons event events ih =>
      simp only [feedAll, Event.writtenOn]
      rcases b.feed_first_new event with ⟨hclose, hid, _⟩ | ⟨_, hid, hlt⟩
      · refine ⟨fun attrs hattrs => ?_, (ih (b.feed event).2).congr fun e _ => ?_⟩
        · rw [hclose] at hattrs
          cases hattrs
        · rw [hid, if_neg (by simp)]
      · refine ⟨fun attrs hattrs => ?_, (ih (b.feed event).2).congr fun e he => ?_⟩
        · simp [hid, hattrs]
        · rw [hid, if_neg (by simp only [Option.some.injEq]; omega)]

end Builder

/-! ## The whole document -/

theorem nonEmpty?_resolve? (scope : Scope) (pfx : String) :
    nonEmpty? ((scope.resolve? pfx).getD "") = scope.resolve? pfx := by
  cases h : scope.resolve? pfx with
  | none => rfl
  | some uri =>
      rw [Scope.resolve?, Option.filter_eq_some_iff, bne_iff_ne] at h
      exact if_neg h.2

theorem nonEmpty?_attrName (scope : Scope) (name : String) :
    nonEmpty? (Builder.attrName scope name).uri =
      if (Builder.attrName scope name).pfx = "" then none
      else scope.resolve? (Builder.attrName scope name).pfx := by
  have huri : (Builder.attrName scope name).uri = if (Builder.attrName scope name).pfx = "" then ""
      else (scope.resolve? (Builder.attrName scope name).pfx).getD "" := rfl
  rw [huri]
  by_cases hpfx : (Builder.attrName scope name).pfx = ""
  · rw [if_pos hpfx, if_pos hpfx]
    rfl
  · rw [if_neg hpfx, if_neg hpfx, nonEmpty?_resolve?]

theorem getD_nonEmpty? (text : String) : (nonEmpty? text).getD "" = text := by
  rw [nonEmpty?]
  split
  · rename_i h
    exact h.symm
  · rfl

theorem hasName {v : View} {id : NodeId} {name : QName} {text : String}
    (hlocal : v.localName? id = some name.localPart) (hpfx : v.pfx? id = nonEmpty? name.pfx)
    (hname : QName.split text = (name.pfx, name.localPart)) : v.HasName id text := by
  refine ⟨_, hlocal, ?_⟩
  rw [hpfx, getD_nonEmpty?]
  exact QName.split_eq_iff.mp hname

theorem Builder.MadeBy.hasName {d : Document} {e : NodeId} {event : Event}
    (hm : Builder.MadeBy d e event) : ∃ text, event.name? = some text ∧ d.view.HasName e text := by
  obtain ⟨text, scope, _, _, htext, hcontent⟩ := hm
  exact ⟨text, htext, TreeQuery.hasName (congrArg (fun c => c.bind Content.localName?) hcontent)
    (congrArg (fun c => c.bind Content.pfx?) hcontent) rfl⟩

namespace Builder.Composed

variable {d : Document} {name? : NodeId → Option String} {written : NodeId → WrittenAttrs}
  {e a : Nat} {path : List NodeId}
  {scope : Scope} {pfx uri : String} (hc : Composed d written e path scope)
include hc

theorem elementUri : ∃ pfx, d.view.pfx? e = nonEmpty? pfx ∧ d.view.uri? e = scope.resolve? pfx := by
  obtain ⟨name, hcontent⟩ := hc.content?
  refine ⟨(QName.split name).1, congrArg (fun c => c.bind Content.pfx?) hcontent, ?_⟩
  rw [← nonEmpty?_resolve?]
  exact congrArg (fun c => c.bind Content.uri?) hcontent

theorem bindings_eq : d.bindings e = List.range' (e + 1) (scope.bindings.take wordMax).length := by
  obtain ⟨name, hcontent⟩ := hc.content?
  exact Document.bindings_of_content? hcontent

theorem attributes_eq : d.attributes e =
    List.range' (e + 1 + (scope.bindings.take wordMax).length) (plainAttrs (written e)).length := by
  obtain ⟨name, hcontent⟩ := hc.content?
  exact Document.attributes_of_content? hcontent

theorem content?_attr {i : Nat} {attr : String × String}
    (hattr : (plainAttrs (written e))[i]? = some attr) :
    d.content? (e + 1 + (scope.bindings.take wordMax).length + i) =
      some (.attr (attrName scope attr.1) attr.2) := by
  rw [Nat.add_assoc]
  refine hc.owned _ _ ?_
  rw [ownedContents, List.getElem?_append_right (by rw [List.length_map]; omega),
    List.length_map, Nat.add_sub_cancel_left, List.getElem?_map, hattr, Option.map_some]

theorem attrNames : List.Forall₂ (fun a attr => d.view.HasName a attr.1 ∧
    d.view.value? a = some attr.2) (d.attributes e) (plainAttrs (written e)) := by
  rw [hc.attributes_eq]
  refine List.forall₂_iff_get.mpr ⟨List.length_range', fun i hi hattr => ?_⟩
  have hcontent := hc.content?_attr (List.getElem?_eq_getElem hattr)
  rw [List.get_eq_getElem, List.getElem_range', Nat.one_mul]
  exact ⟨hasName (congrArg (fun c => c.bind Content.localName?) hcontent)
    (congrArg (fun c => c.bind Content.pfx?) hcontent) rfl,
    congrArg (fun c => c.bind Content.value?) hcontent⟩

theorem attrUri (ha : a ∈ d.attributes e) :
    ∃ pfx, d.view.pfx? a = nonEmpty? pfx ∧
      d.view.uri? a = if pfx = "" then none else scope.resolve? pfx := by
  rw [hc.attributes_eq, List.mem_range'_1] at ha
  obtain ⟨i, rfl⟩ : ∃ i, a = e + 1 + (scope.bindings.take wordMax).length + i :=
    ⟨a - (e + 1 + (scope.bindings.take wordMax).length), by omega⟩
  have hi : i < (plainAttrs (written e)).length := by omega
  have hcontent := hc.content?_attr (List.getElem?_eq_getElem hi)
  exact ⟨_, congrArg (fun c => c.bind Content.pfx?) hcontent,
    (congrArg (fun c => c.bind Content.uri?) hcontent).trans (nonEmpty?_attrName scope _)⟩

theorem binding {i : Nat} (hi : (scope.bindings.take wordMax)[i]? = some (pfx, uri)) :
    d.view.name? (e + 1 + i) = some pfx ∧ d.view.stringValue (e + 1 + i) = uri := by
  have hlt := (List.getElem?_eq_some_iff.mp hi).1
  have hcontent := hc.owned i _ (by
    rw [ownedContents, List.getElem?_append_left (by rwa [List.length_map]), List.getElem?_map, hi,
      Option.map_some])
  constructor
  · simp only [View.name?, Document.view, hcontent]
    rfl
  · have hkind : d.view.kind (e + 1 + i) = .binding := Document.kind_of_content? hcontent
    rw [View.stringValue, hkind]
    exact congrArg (fun c => (c.bind Content.value?).getD "") hcontent

variable (h : d.WellBuilt) (hwritten : written View.documentNode = [])
include h hwritten

theorem resolve?_eq_some_iff : scope.resolve? pfx = some uri ↔ d.view.Binds written e pfx uri := by
  rw [hc.scope_eq]
  exact View.resolve?_eq_some_iff hc.lineage h.parent_lt hwritten

omit h hwritten in
theorem mem_bindings_iff {made : List Scope.Site}
    (hmade : scope.bindings.take wordMax = made.map fun s => (s.pfx, s.uri)) {n : Nat} :
    n ∈ d.bindings e ↔ ∃ i s, made[i]? = some s ∧ n = e + 1 + i := by
  rw [hc.bindings_eq, hmade, List.length_map, List.mem_range'_1]
  constructor
  · intro hn
    obtain ⟨i, rfl⟩ : ∃ i, n = e + 1 + i := ⟨n - (e + 1), by omega⟩
    exact ⟨i, _, List.getElem?_eq_getElem (by omega), rfl⟩
  · rintro ⟨i, s, hs, rfl⟩
    have hi := (List.getElem?_eq_some_iff.mp hs).1
    omega

theorem binds_of_find? {s : Scope.Site}
    (hs : (Scope.sites written (e :: path)).find? (·.pfx == s.pfx) = some s) (huri : s.uri ≠ "") :
    Scope.isReserved s.pfx = false ∧ d.view.Binds written e s.pfx s.uri := by
  have hsorted := @Scope.pairwise_sites written _ (View.pairwise_path hc.lineage h.parent_lt)
  have hreserved := Scope.not_reserved_of_mem_sites (Scope.last_of_find? hsorted hs).1
  have hmade := (View.madeAt_of_find? hc.lineage h.parent_lt hwritten hs).2
  exact ⟨hreserved, .inr (.inr ⟨hreserved, huri, s.owner, s.index, hmade⟩)⟩

/-- The bindings behind an element are the declarations that count, in their order. -/
theorem exists_made (hfew : d.view.FewBindings written) (he : d.kind e = .element) :
    ∃ made : List Scope.Site, made.Pairwise Scope.Site.Before ∧
      scope.bindings.take wordMax = made.map (fun s => (s.pfx, s.uri)) ∧
      ∀ s, s ∈ made ↔
        (Scope.sites written (e :: path)).find? (·.pfx == s.pfx) = some s ∧ s.uri ≠ "" := by
  obtain ⟨made, hpairwise, hbindings, hmem⟩ :=
    @Scope.exists_bindings_within written _ (View.pairwise_path hc.lineage h.parent_lt)
  refine ⟨made, hpairwise, ?_, hmem⟩
  have hnodup : (made.map (·.pfx)).Nodup := by
    refine List.pairwise_map.mpr (hpairwise.imp_of_mem fun {s t} hs ht hst hpfx => ?_)
    have hfind := ((hmem s).mp hs).1
    rw [hpfx, ((hmem t).mp ht).1, Option.some.injEq] at hfind
    subst hfind
    exact hst.asymm hst
  have hlength := hfew e he (made.map (·.pfx)) hnodup fun pfx hpfx => by
    obtain ⟨s, hs, rfl⟩ := List.mem_map.mp hpfx
    obtain ⟨hfind, huri⟩ := (hmem s).mp hs
    obtain ⟨hreserved, hbinds⟩ := hc.binds_of_find? h hwritten hfind huri
    exact ⟨hreserved, s.uri, hbinds⟩
  rw [List.length_map] at hlength
  rw [hc.scope_eq, hbindings, List.take_of_length_le]
  rw [List.length_map]
  exact Nat.le_of_lt hlength

/-- The bindings of an element are those of the declarations that count. -/
theorem bindings_iff {made : List Scope.Site}
    (hmade : scope.bindings.take wordMax = made.map fun s => (s.pfx, s.uri))
    (hmem : ∀ s, s ∈ made ↔
      (Scope.sites written (e :: path)).find? (·.pfx == s.pfx) = some s ∧ s.uri ≠ "") :
    (∃ n ∈ d.bindings e, d.view.name? n = some pfx ∧ d.view.stringValue n = uri) ↔
      Scope.isReserved pfx = false ∧ d.view.Binds written e pfx uri := by
  have hnode : ∀ i s, made[i]? = some s →
      d.view.name? (e + 1 + i) = some s.pfx ∧ d.view.stringValue (e + 1 + i) = s.uri :=
    fun i s hs => hc.binding (by rw [hmade, List.getElem?_map, hs, Option.map_some])
  constructor
  · rintro ⟨n, hn, hname, hvalue⟩
    obtain ⟨i, s, hs, rfl⟩ := (hc.mem_bindings_iff hmade).mp hn
    rw [(hnode i s hs).1, Option.some.injEq] at hname
    rw [(hnode i s hs).2] at hvalue
    subst hname hvalue
    obtain ⟨hfind, huri⟩ := (hmem s).mp (List.mem_of_getElem? hs)
    exact hc.binds_of_find? h hwritten hfind huri
  · rintro ⟨hreserved, hbinds⟩
    rcases hbinds with ⟨rfl, _⟩ | ⟨rfl, _⟩ | ⟨_, huri, owner, index, hat⟩
    · cases hreserved
    · cases hreserved
    · obtain ⟨s, hfind, rfl, _, _⟩ :=
        View.find?_of_madeAt hc.lineage h.parent_lt hwritten hreserved hat
      have hpfx : s.pfx = pfx := eq_of_beq (List.find?_some hfind :)
      subst hpfx
      obtain ⟨i, hi⟩ := List.getElem?_of_mem ((hmem s).mpr ⟨hfind, huri⟩)
      exact ⟨_, (hc.mem_bindings_iff hmade).mpr ⟨i, s, hi, rfl⟩, hnode i s hi⟩

/-- Bindings stand in the order in which their declarations are written. -/
theorem order {made : List Scope.Site} (hpairwise : made.Pairwise Scope.Site.Before)
    (hmade : scope.bindings.take wordMax = made.map fun s => (s.pfx, s.uri))
    (hmem : ∀ s, s ∈ made ↔
      (Scope.sites written (e :: path)).find? (·.pfx == s.pfx) = some s ∧ s.uri ≠ "") :
    (d.bindings e).Pairwise fun n m => ∀ pfx pfx', d.view.name? n = some pfx →
      d.view.name? m = some pfx' → pfx ≠ pfx' ∧ ∀ uri uri' owner owner' i j,
        d.view.MadeAt written e pfx uri owner i → d.view.MadeAt written e pfx' uri' owner' j →
          d.view.IsAbove owner owner' ∨ (owner = owner' ∧ i < j) := by
  have hplace : ∀ {s : Scope.Site} {uri owner index}, s ∈ made →
      d.view.MadeAt written e s.pfx uri owner index →
        s.owner ∈ e :: path ∧ s.owner = owner ∧ s.index = index := by
    intro s uri owner index hs hat
    have hfind := ((hmem s).mp hs).1
    have hreserved := (hc.binds_of_find? h hwritten hfind ((hmem s).mp hs).2).1
    obtain ⟨t, ht, _, howner, hindex⟩ :=
      View.find?_of_madeAt hc.lineage h.parent_lt hwritten hreserved hat
    rw [hfind, Option.some.injEq] at ht
    subst ht
    exact ⟨(View.madeAt_of_find? hc.lineage h.parent_lt hwritten hfind).1, howner, hindex⟩
  rw [hc.bindings_eq, hmade, List.length_map]
  refine List.pairwise_iff_getElem.mpr fun i j hi hj hij => ?_
  rw [List.length_range'] at hi hj
  rw [List.getElem_range', List.getElem_range', Nat.one_mul, Nat.one_mul]
  have hbefore := List.pairwise_iff_getElem.mp hpairwise i j hi hj hij
  have hname : ∀ {k} (hk : k < made.length), d.view.name? (e + 1 + k) = some made[k].pfx :=
    fun hk => (hc.binding (by
      rw [hmade, List.getElem?_map, List.getElem?_eq_getElem hk, Option.map_some])).1
  intro pfx pfx' hpfx hpfx'
  rw [hname hi, Option.some.injEq] at hpfx
  rw [hname hj, Option.some.injEq] at hpfx'
  subst hpfx hpfx'
  refine ⟨fun heq => ?_, fun uri uri' owner owner' k l hs ht => ?_⟩
  · have hfind := ((hmem _).mp (List.getElem_mem hi)).1
    rw [heq, ((hmem _).mp (List.getElem_mem hj)).1, Option.some.injEq] at hfind
    rw [hfind] at hbefore
    exact hbefore.asymm hbefore
  · obtain ⟨hon, rfl, rfl⟩ := hplace (List.getElem_mem hi) hs
    obtain ⟨hon', rfl, rfl⟩ := hplace (List.getElem_mem hj) ht
    exact View.isAbove_or_of_before hc.lineage h.parent_lt hon hon' hbefore

theorem named (hfew : d.view.FewBindings written) (he : d.kind e = .element)
    (hname : ∃ text, name? e = some text ∧ d.view.HasName e text) :
    d.view.Named name? written e := by
  obtain ⟨made, hpairwise, hmade, hmem⟩ := hc.exists_made h hwritten hfew he
  refine ⟨hname, hc.attrNames, fun uri => ?_, fun a ha uri => ?_,
    fun pfx uri => hc.bindings_iff h hwritten hmade hmem,
    hc.order h hwritten hpairwise hmade hmem⟩
  · obtain ⟨pfx, hpfx, huri⟩ := hc.elementUri
    rw [huri, hpfx, getD_nonEmpty?, hc.resolve?_eq_some_iff h hwritten]
  · obtain ⟨pfx, hpfx, huri⟩ := hc.attrUri ha
    rw [huri, hpfx, nonEmpty?]
    split
    · simp
    · simp [hc.resolve?_eq_some_iff h hwritten]

end Builder.Composed

namespace Document

theorem notDeep_of_shallow {b : Builder} (hb : b.Sound) (h : b.finish.view.Shallow) :
    b.NotDeep := by
  intro e path he hl
  have hlength := h e he
  have hle : (path ++ [View.documentNode]).length ≤ b.finish.view.size :=
    Nat.le_trans (hl.length_le hb.wellBuilt.parent_lt)
      (Nat.le_of_lt (lt_size_of_kind (by rw [he]; decide)))
  rwa [hl.ancestors hle, List.length_append] at hlength

/-! ### Small documents -/

theorem shallow_ofEvents {events : List Event} (hsize : (ofEvents events).size ≤ Builder.wordMax) :
    (ofEvents events).view.Shallow := by
  intro e he
  have h := wellBuilt_ofEvents events
  have hlt : e < (ofEvents events).size := lt_size_of_kind (by
    rw [show (ofEvents events).kind e = .element from he]
    decide)
  have hlength := (h.lineage_ancestors hlt).length_le h.parent_lt
  exact Nat.lt_of_le_of_lt hlength (Nat.lt_of_lt_of_le hlt hsize)

theorem mem_of_mem_writtenOn {e : NodeId} {ids : List (Option NodeId)} {events : List Event}
    {attr : String × String} (h : attr ∈ Event.writtenOn e ids events) :
    attr ∈ events.flatMap fun event => event.attrs?.getD [] := by
  induction events generalizing ids with
  | nil => cases ids <;> cases h
  | cons event events ih =>
      cases ids with
      | nil => cases h
      | cons id ids =>
          rw [List.flatMap_cons, List.mem_append]
          rw [Event.writtenOn] at h
          split at h
          · exact .inl h
          · exact .inr (ih h)

/-- Without too many attributes there are not too many bindings. -/
theorem fewBindings_ofEvents {events : List Event}
    (h : (events.flatMap fun event => event.attrs?.getD []).length < Builder.wordMax) :
    (ofEvents events).view.FewBindings (written events) := by
  intro e _ pfxs hnodup hbound
  let declared := (events.flatMap fun event => event.attrs?.getD []).filterMap
    fun attr => Builder.declared? attr.1
  have hsubset : pfxs ⊆ declared := by
    intro pfx hpfx
    obtain ⟨hreserved, uri, hbinds⟩ := hbound pfx hpfx
    rcases hbinds with ⟨rfl, _⟩ | ⟨rfl, _⟩ | ⟨_, _, owner, index, hmade⟩
    · cases hreserved
    · cases hreserved
    · obtain ⟨name, hget, hdeclares⟩ := hmade.declares
      exact List.mem_filterMap.mpr ⟨(name, uri), mem_of_mem_writtenOn (List.mem_of_getElem? hget),
        declared?_eq_some_iff.mpr hdeclares⟩
  exact Nat.lt_of_le_of_lt
    (Nat.le_trans (List.Nodup.subperm hnodup hsubset).length_le (List.length_filterMap_le _ _)) h

/-! ### All documents -/

theorem elements_named (events : List Event) (hshallow : (ofEvents events).view.Shallow)
    (hfew : (ofEvents events).view.FewBindings (written events)) {e : NodeId}
    (he : (ofEvents events).kind e = .element) :
    (ofEvents events).view.Named
      (fun e => (Event.adding? e (Builder.initial.feedAll events).1 events).bind Event.name?)
      (written events) e := by
  have hsound := Builder.sound_initial.feedAll events
  have htracked := Builder.tracked_initial.feedAll Builder.sound_initial
    (Builder.writes_writtenOn .initial events) (notDeep_of_shallow hsound hshallow)
  obtain ⟨path, scope, hc⟩ := htracked.composed e he
  have hpos : Builder.initial.nodes.size ≤ e := by
    refine Nat.pos_of_ne_zero fun hzero => ?_
    have hdocument := kind_of_content? hsound.wellBuilt.content?_documentNode
    rw [hzero] at he
    cases he.symm.trans hdocument
  obtain ⟨event, hadding, hmade⟩ := Builder.madeBy_feedAll Builder.sound_initial hpos he
  obtain ⟨text, htext, hname⟩ := hmade.hasName
  exact hc.named hsound.wellBuilt (Builder.writtenOn_old events Nat.one_pos) hfew he
    ⟨text, by rw [hadding]; exact htext, hname⟩

end Document

namespace Stored.Document

end Stored.Document

end TreeQuery
