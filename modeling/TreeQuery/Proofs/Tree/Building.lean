import TreeQuery.Proofs.Tree.Attached
import TreeQuery.Tree.Builder

/-!
Documents under construction. Every event attaches one child with what it owns to the innermost
open element, or closes it, or changes nothing; so a document that events describe is well-built
at any time.
-/
namespace TreeQuery.Builder

variable (b : Builder)

/-! ## One more child -/

/-- The last child of the node that the next node becomes a child of. -/
def lastOfParent : Option NodeId := b.finish.lastChild? b.parent

/-- What the links of a node become when the next node has the given number. -/
def relink (id : NodeId) (n : Node) : Node :=
  { n with
    firstChild := if b.parent = id then n.firstChild.or (some b.nodes.size) else n.firstChild
    lastChild := if b.parent = id then some b.nodes.size else n.lastChild
    nextSibling := if b.lastOfParent = some id then some b.nodes.size else n.nextSibling }

/-- The nodes that are there, with links to the next node. -/
def relinked : Array Node :=
  let nodes := b.nodes.modify b.parent fun p =>
    { p with firstChild := p.firstChild.or (some b.nodes.size), lastChild := some b.nodes.size }
  match b.lastOfParent with
  | some sibling => nodes.modify sibling fun n => { n with nextSibling := some b.nodes.size }
  | none => nodes

theorem addChild_nodes (content : Content) :
    (b.addChild content).nodes = b.relinked.push
      { content, parent := some b.parent, prevSibling := b.lastOfParent, depth := b.depth } := rfl

theorem size_relinked : b.relinked.size = b.nodes.size := by
  rw [relinked]
  split <;> simp

theorem getElem?_relinked (id : Nat) :
    b.relinked[id]? = (b.nodes[id]?).map (b.relink id) := by
  have hrelink : b.relink id = fun n => b.relink id n := rfl
  cases hl : b.lastOfParent with
  | none =>
      simp only [relinked, hl, Array.getElem?_modify, hrelink, relink]
      split <;> simp
  | some last =>
      simp only [relinked, hl, Array.getElem?_modify, hrelink, relink, Option.some.injEq]
      split <;> split <;> simp [Function.comp_def]

/-- The nodes with one more child and nodes that it owns behind it. -/
def grown (content : Content) (depth : UInt16) (owned : List Content) : Array Node :=
  owned.foldl (fun nodes c => nodes.push { content := c, parent := some b.nodes.size, depth })
    (b.addChild content).nodes

theorem grown_eq_append (content : Content) (depth : UInt16) (owned : List Content) :
    b.grown content depth owned = (b.addChild content).nodes ++
      (owned.map fun c =>
        ({ content := c, parent := some b.nodes.size, depth } : Node)).toArray := by
  rw [grown, List.foldl_push_eq_append]

theorem size_grown (content : Content) (depth : UInt16) (owned : List Content) :
    (b.grown content depth owned).size = b.nodes.size + 1 + owned.length := by
  simp only [grown_eq_append, addChild_nodes, Array.size_append, Array.size_push, size_relinked,
    List.size_toArray, List.length_map]

theorem getElem?_grown (content : Content) (depth : UInt16) (owned : List Content) (id : Nat) :
    (b.grown content depth owned)[id]? =
      if id < b.nodes.size then (b.nodes[id]?).map (b.relink id)
      else if id = b.nodes.size then
        some { content, parent := some b.parent, prevSibling := b.lastOfParent, depth := b.depth }
      else (owned[id - (b.nodes.size + 1)]?).map fun c =>
        { content := c, parent := some b.nodes.size, depth } := by
  rw [grown_eq_append, addChild_nodes, Array.getElem?_append, Array.size_push, size_relinked,
    Array.getElem?_push, size_relinked, getElem?_relinked]
  rcases Nat.lt_trichotomy id b.nodes.size with hlt | rfl | hgt
  · simp [hlt, Nat.ne_of_lt hlt, Nat.lt_succ_of_lt hlt]
  · simp
  · simp [Nat.not_lt_of_gt hgt, Nat.ne_of_gt hgt, Nat.not_lt_of_le hgt]

section
variable {d' : Document} {content : Content} {depth : UInt16} {owned : List Content} {id : Nat}
  (hnodes : d'.nodes = b.grown content depth owned)
include hnodes

theorem node?_old (hid : id < b.nodes.size) :
    d'.node? id = (b.finish.node? id).map (b.relink id) := by
  rw [Document.node?, hnodes, getElem?_grown, if_pos hid]
  rfl

theorem node?_new : d'.node? b.nodes.size =
    some { content, parent := some b.parent, prevSibling := b.lastOfParent, depth := b.depth } := by
  rw [Document.node?, hnodes, getElem?_grown, if_neg (Nat.lt_irrefl _), if_pos rfl]

theorem node?_owned (hid : b.nodes.size < id) :
    d'.node? id = (owned[id - (b.nodes.size + 1)]?).map fun c =>
      { content := c, parent := some b.nodes.size, depth } := by
  rw [Document.node?, hnodes, getElem?_grown, if_neg (Nat.lt_asymm hid), if_neg (Nat.ne_of_gt hid)]

theorem exists_owned (hgt : b.nodes.size < id) (hlt : id < d'.size) :
    ∃ c, owned[id - (b.nodes.size + 1)]? = some c ∧ d'.kind id = c.kind ∧
      d'.view.parent? id = some b.nodes.size := by
  have hsize : d'.size = b.nodes.size + 1 + owned.length := by
    rw [Document.size, hnodes, size_grown]
  have hi : id - (b.nodes.size + 1) < owned.length := by omega
  have hnode := b.node?_owned hnodes hgt
  rw [List.getElem?_eq_getElem hi, Option.map_some] at hnode
  refine ⟨_, List.getElem?_eq_getElem hi, ?_, congrArg (fun n => n.bind Node.parent) hnode⟩
  rw [Document.kind, Document.content?, hnode]
  rfl

/-- A link that owned nodes do not have. -/
theorem link_grown (link : Node → Option NodeId)
    (howned : ∀ c owner, link { content := c, parent := some owner, depth } = none) :
    (d'.node? id).bind link =
      if id = b.nodes.size then
        link { content, parent := some b.parent, prevSibling := b.lastOfParent, depth := b.depth }
      else (b.finish.node? id).bind fun n => link (b.relink id n) := by
  rcases Nat.lt_trichotomy id b.nodes.size with hlt | rfl | hgt
  · rw [b.node?_old hnodes hlt, if_neg (Nat.ne_of_lt hlt), Option.bind_map]
    rfl
  · rw [b.node?_new hnodes, if_pos rfl]
    rfl
  · have hnone : b.finish.node? id = none := Array.getElem?_eq_none (Nat.le_of_lt hgt)
    rw [b.node?_owned hnodes hgt, if_neg (Nat.ne_of_gt hgt), hnone]
    cases owned[id - (b.nodes.size + 1)]? with
    | none => rfl
    | some c => exact howned c _

end

section
variable {b}
variable {d' : Document} {content : Content} {depth : UInt16} {owned : List Content} {id : Nat}
  (h : b.finish.WellBuilt) (ho : b.finish.OpenPath b.openElements)

theorem ne_size_of_node? {n : Node} (hn : b.finish.node? id = some n) : id ≠ b.nodes.size :=
  Nat.ne_of_lt (Array.getElem?_eq_some_iff.mp hn).1

include h ho in
theorem ne_of_node?_eq_none (hn : b.finish.node? id = none) :
    id ≠ b.parent ∧ b.lastOfParent ≠ some id := by
  have hge : b.nodes.size ≤ id := Array.getElem?_eq_none_iff.mp hn
  have hparent : b.parent < b.nodes.size := ho.parent_lt h
  refine ⟨Nat.ne_of_gt (Nat.lt_of_lt_of_le hparent hge), fun hlast => ?_⟩
  rw [lastOfParent, (h.linked b.parent).last] at hlast
  have hchild := (Document.mem_offspring.mp (List.mem_of_getLast? hlast)).1
  exact Nat.not_lt_of_ge hge (Document.lt_size_of_parent? hchild)

include h ho in
theorem attached (hnodes : d'.nodes = b.grown content depth owned)
    (hlength : owned.length = content.counts.1 + content.counts.2)
    (hkind : ∀ i c, owned[i]? = some c →
      c.kind = if i < content.counts.1 then .binding else .attr)
    (hroot : d'.rootElement = b.rootElement.or
      (if content.kind = .element ∧ b.parent = View.documentNode then some b.nodes.size
        else none)) :
    b.finish.Attached d' b.parent content where
  size_eq := by
    rw [Document.size, hnodes, size_grown, hlength, ← Nat.add_assoc]
    rfl
  content?_old id hid := by
    rw [Document.content?, b.node?_old hnodes hid, Option.map_map]
    rfl
  content?_new := congrArg (Option.map Node.content) (b.node?_new hnodes)
  kind_binding id hgt hle := by
    change b.nodes.size < id at hgt
    change id ≤ b.nodes.size + content.counts.1 at hle
    have hsize : d'.size = b.nodes.size + 1 + owned.length := by
      rw [Document.size, hnodes, size_grown]
    obtain ⟨c, hc, hk, _⟩ := b.exists_owned hnodes hgt (by omega)
    rw [hk, hkind _ c hc, if_pos (by omega)]
  kind_attr id hgt hlt := by
    change b.nodes.size + content.counts.1 < id at hgt
    obtain ⟨c, hc, hk, _⟩ := b.exists_owned hnodes (by omega) hlt
    rw [hk, hkind _ c hc, if_neg (by omega)]
  parent?_old id hid := by
    change (d'.node? id).bind (·.parent) = (b.finish.node? id).bind (·.parent)
    rw [b.node?_old hnodes hid, Option.bind_map]
    rfl
  parent?_new := congrArg (fun n => n.bind Node.parent) (b.node?_new hnodes)
  parent?_owned id hgt hlt := by
    obtain ⟨_, _, _, hp⟩ := b.exists_owned hnodes hgt hlt
    exact hp
  firstChild? id := by
    change (d'.node? id).bind (·.firstChild) = _
    rw [b.link_grown hnodes _ fun _ _ => rfl, Document.firstChild?]
    cases hn : b.finish.node? id with
    | none => simp [(ne_of_node?_eq_none h ho hn).1]
    | some n => simp [ne_size_of_node? hn, relink, eq_comm, Document.size, finish]
  lastChild? id := by
    change (d'.node? id).bind (·.lastChild) = _
    rw [b.link_grown hnodes _ fun _ _ => rfl, Document.lastChild?]
    cases hn : b.finish.node? id with
    | none => simp [(ne_of_node?_eq_none h ho hn).1]
    | some n => simp [ne_size_of_node? hn, relink, eq_comm, Document.size, finish]
  nextSibling? id := by
    change (d'.node? id).bind (·.nextSibling) = if b.lastOfParent = some id then _ else _
    rw [b.link_grown hnodes _ fun _ _ => rfl, Document.nextSibling?]
    cases hn : b.finish.node? id with
    | none => simp [(ne_of_node?_eq_none h ho hn).2]
    | some n => simp [ne_size_of_node? hn, relink, Document.size, finish]
  prevSibling? id := by
    change (d'.node? id).bind (·.prevSibling) = if id = b.nodes.size then b.lastOfParent else _
    rw [b.link_grown hnodes _ fun _ _ => rfl]
    rfl
  rootElement_eq := hroot

end

/-! ## Single events -/

/-- The second builder has one more child, with the nodes that it owns behind it. -/
structure Grows (b b' : Builder) (content : Content) : Prop where
  nodes_eq : ∃ depth owned, b'.nodes = b.grown content depth owned ∧
    owned.length = content.counts.1 + content.counts.2 ∧
    ∀ i c, owned[i]? = some c → c.kind = if i < content.counts.1 then .binding else .attr
  rootElement_eq : b'.rootElement = b.rootElement.or
    (if content.kind = .element ∧ b.parent = View.documentNode then some b.nodes.size else none)
  not_isOwned : content.kind.isOwned = false

/-- What an event does: it closes an element, or it adds a child that may stay open. -/
inductive Fed (b : Builder) : Option NodeId → Builder → Prop where
  | closed {b' : Builder} (hfinish : b'.finish = b.finish)
      (hopen : b'.openElements = b.openElements.tail) : Fed b none b'
  | added {b' : Builder} {content : Content} (hgrows : b.Grows b' content)
      (hopen : b'.openElements = b.openElements) : Fed b (some b.nodes.size) b'
  | opened {b' : Builder} {content : Content} (hgrows : b.Grows b' content)
      (hkind : content.kind = .element)
      (hopen : b'.openElements = b.nodes.size :: b.openElements) : Fed b (some b.nodes.size) b'

theorem grows_addChild (content : Content) (hcounts : content.counts = (0, 0))
    (helement : content.kind ≠ .element) (howned : content.kind.isOwned = false) :
    b.Grows (b.addChild content) content where
  nodes_eq := ⟨0, [], rfl, by simp [hcounts], by simp⟩
  rootElement_eq := by
    rw [if_neg fun h => helement h.1, Option.or_none]
    rfl
  not_isOwned := howned

theorem kind_of_append {bindings attrs : List Content} {i : Nat} {c : Content}
    (hbindings : ∀ c ∈ bindings, c.kind = .binding) (hattrs : ∀ c ∈ attrs, c.kind = .attr)
    (hc : (bindings ++ attrs)[i]? = some c) :
    c.kind = if i < bindings.length then .binding else .attr := by
  split
  · rename_i hlt
    rw [List.getElem?_append_left hlt] at hc
    exact hbindings c (List.mem_of_getElem? hc)
  · rename_i hle
    rw [List.getElem?_append_right (Nat.le_of_not_lt hle)] at hc
    exact hattrs c (List.mem_of_getElem? hc)

theorem grows_openElement (name : String) (attrs : WrittenAttrs) :
    ∃ content, content.kind = .element ∧ b.Grows (b.openElement name attrs).2 content := by
  refine ⟨.element _ _ _, rfl, ⟨_, _, rfl, ?_, fun i c hc => ?_⟩, ?_, rfl⟩
  · simp [Content.counts]
  · refine (kind_of_append ?_ ?_ hc).trans (by rw [List.length_map]; rfl)
    · intro c hc
      obtain ⟨_, _, rfl⟩ := List.mem_map.mp hc
      rfl
    · intro c hc
      obtain ⟨_, _, rfl⟩ := List.mem_map.mp hc
      rfl
  · simp only [openElement, Content.kind, true_and]

/-- The attributes behind an element: declarations are none of them. -/
def plainAttrs (attrs : WrittenAttrs) : WrittenAttrs :=
  (attrs.filter fun (name, _) => (declared? name).isNone).take wordMax

/-- The nodes behind an element with the given scope. -/
def ownedContents (scope : Scope) (attrs : WrittenAttrs) : List Content :=
  (scope.bindings.take wordMax).map (fun (pfx, uri) => .binding pfx uri) ++
    (plainAttrs attrs).map (fun (name, value) => .attr (attrName scope name) value)

theorem openElement_nodes (name : String) (attrs : WrittenAttrs) :
    (b.openElement name attrs).2.nodes =
      b.grown (.element (elementName (innerScope b.scope attrs) name)
        ((innerScope b.scope attrs).bindings.take wordMax).length (plainAttrs attrs).length)
        (b.depth + 1) (ownedContents (innerScope b.scope attrs) attrs) := rfl

theorem finish_closeElement : b.closeElement.finish = b.finish := by
  cases h : b.openElements <;> simp [closeElement, h, finish]

theorem openElements_closeElement : b.closeElement.openElements = b.openElements.tail := by
  cases h : b.openElements <;> simp [closeElement, h]

theorem Grows.closeElement {b b' : Builder} {content : Content} (hg : b.Grows b' content) :
    b.Grows b'.closeElement content := by
  have hfinish := b'.finish_closeElement
  refine ⟨?_, ?_, hg.not_isOwned⟩
  · rw [show b'.closeElement.nodes = b'.nodes from congrArg Document.nodes hfinish]
    exact hg.nodes_eq
  · exact (congrArg Document.rootElement hfinish).trans hg.rootElement_eq

/-- Every event but an end adds a node. -/
theorem fed_feed (event : Event) : b.Fed (b.feed event).1 (b.feed event).2 := by
  cases event with
  | start name attrs =>
      obtain ⟨content, hkind, hgrows⟩ := b.grows_openElement name attrs
      exact .opened hgrows hkind rfl
  | close => exact .closed b.finish_closeElement b.openElements_closeElement
  | empty name attrs =>
      obtain ⟨content, hkind, hgrows⟩ := b.grows_openElement name attrs
      exact .added hgrows.closeElement rfl
  | text | cdata | comment | doctype | declaration | instruction =>
      exact .added (b.grows_addChild _ rfl (by simp [Content.kind]) rfl) rfl

/-! ## All events -/

/-- What holds of a builder between two events. -/
structure Sound (b : Builder) : Prop where
  wellBuilt : b.finish.WellBuilt
  openPath : b.finish.OpenPath b.openElements

theorem Grows.attached {b b' : Builder} {content : Content} (hg : b.Grows b' content)
    (hb : b.Sound) : b.finish.Attached b'.finish b.parent content := by
  obtain ⟨depth, owned, hnodes, hlength, hkind⟩ := hg.nodes_eq
  exact Builder.attached hb.wellBuilt hb.openPath hnodes hlength hkind hg.rootElement_eq

theorem node?_initial (id : Nat) : initial.finish.node? id = none ∨
    initial.finish.node? id = some { content := .document, parent := none, depth := 0 } := by
  cases id with
  | zero => exact .inr rfl
  | succ id => exact .inl rfl

theorem link_initial (link : Node → Option NodeId)
    (hnone : link { content := .document, parent := none, depth := 0 } = none) (id : Nat) :
    (initial.finish.node? id).bind link = none := by
  rcases node?_initial id with h | h <;> rw [h]
  · rfl
  · exact hnone

theorem kind_initial (id : Nat) : initial.finish.kind id = .document := by
  rcases node?_initial id with h | h <;> rw [Document.kind, Document.content?, h] <;> rfl

theorem wellBuilt_initial : initial.finish.WellBuilt where
  content?_documentNode := rfl
  parent?_documentNode := rfl
  exists_parent id hpos hlt := absurd hlt (Nat.not_lt_of_le hpos)
  kind_parent id p hp := by
    rw [show initial.finish.view.parent? id = none from link_initial _ rfl id] at hp
    cases hp
  owned_behind := Document.owned_behind _
  mem_bindings e id := by
    rw [Document.bindings_of_kind (by simp [kind_initial])]
    simp [kind_initial]
  mem_attributes e id := by
    rw [Document.attributes_of_kind (by simp [kind_initial])]
    simp [kind_initial]
  linked p := by
    have hparent : ∀ id, initial.finish.view.parent? id = none := link_initial _ rfl
    rw [Document.offspring_eq_nil fun id => by simp [hparent]]
    exact ⟨link_initial _ rfl p, link_initial _ rfl p, by simp, by simp⟩
  unlinked id _ := ⟨link_initial _ rfl id, link_initial _ rfl id⟩
  subtree x hx := by
    have hnot : ∀ id, ¬ initial.finish.view.IsAbove x id := fun id =>
      View.not_isAbove_of_parent (link_initial _ rfl id)
    refine ⟨1, fun id => ?_⟩
    rw [or_iff_left (hnot id)]
    change x < 1 at hx
    omega
  rootElement_eq := rfl

theorem sound_initial : initial.Sound where
  wellBuilt := wellBuilt_initial
  openPath := by
    refine ⟨by rintro e outer ⟨⟩, by rintro e ⟨⟩, fun x hx id hlt hid => ?_⟩
    exact absurd hid (Nat.not_lt_of_le (Nat.zero_lt_of_lt hlt))

theorem Sound.fed {b b' : Builder} {id : Option NodeId} (hb : b.Sound) (hfed : b.Fed id b') :
    b'.Sound := by
  cases hfed with
  | closed hfinish hopen =>
      exact ⟨hfinish ▸ hb.wellBuilt, hfinish ▸ hopen ▸ hb.openPath.tail⟩
  | added hgrows hopen =>
      have ha := hgrows.attached hb
      refine ⟨ha.wellBuilt hb.openPath hb.wellBuilt hgrows.not_isOwned, ?_⟩
      rw [hopen]
      exact ha.openPath hb.openPath hb.wellBuilt
  | opened hgrows hkind hopen =>
      have ha := hgrows.attached hb
      refine ⟨ha.wellBuilt hb.openPath hb.wellBuilt hgrows.not_isOwned, ?_⟩
      rw [hopen]
      exact ha.openPath_cons hb.openPath hb.wellBuilt hkind

theorem Sound.feedAll {b : Builder} (hb : b.Sound) (events : List Event) :
    (b.feedAll events).2.Sound := by
  induction events generalizing b with
  | nil => exact hb
  | cons event events ih => exact ih (hb.fed (b.fed_feed event))

/-- Nodes stay what and where they are; only links to later nodes are added. -/
def Keeps (b b' : Builder) : Prop :=
  ∀ (id : Nat) (n : Node), b.nodes[id]? = some n → ∃ n' : Node, b'.nodes[id]? = some n' ∧
    n'.content = n.content ∧ n'.parent = n.parent ∧ n'.prevSibling = n.prevSibling

theorem Grows.keeps {b b' : Builder} {content : Content} (hg : b.Grows b' content) :
    b.Keeps b' := by
  intro id n hn
  obtain ⟨depth, owned, hnodes, _⟩ := hg.nodes_eq
  have hlt : id < b.nodes.size := (Array.getElem?_eq_some_iff.mp hn).1
  refine ⟨b.relink id n, ?_, rfl, rfl, rfl⟩
  rw [hnodes, getElem?_grown, if_pos hlt, hn]
  rfl

theorem Fed.keeps {b b' : Builder} {id : Option NodeId} (hfed : b.Fed id b') : b.Keeps b' := by
  cases hfed with
  | closed hfinish =>
      intro id n hn
      exact ⟨n, (congrArg (fun d : Document => d.nodes[id]?) hfinish).trans hn, rfl, rfl, rfl⟩
  | added hgrows => exact hgrows.keeps
  | opened hgrows => exact hgrows.keeps

theorem keeps_feedAll (events : List Event) : b.Keeps (b.feedAll events).2 := by
  induction events generalizing b with
  | nil => exact fun id n hn => ⟨n, hn, rfl, rfl, rfl⟩
  | cons event events ih =>
      intro id n hn
      obtain ⟨n₁, hn₁, hc₁, hp₁, hs₁⟩ := (b.fed_feed event).keeps id n hn
      obtain ⟨n₂, hn₂, hc₂, hp₂, hs₂⟩ := ih (b.feed event).2 id n₁ hn₁
      exact ⟨n₂, hn₂, hc₂.trans hc₁, hp₂.trans hp₁, hs₂.trans hs₁⟩

theorem Grows.size_lt {b b' : Builder} {content : Content} (hg : b.Grows b' content) :
    b.nodes.size < b'.nodes.size := by
  obtain ⟨depth, owned, hnodes, _⟩ := hg.nodes_eq
  rw [hnodes, size_grown]
  omega

/-- The node that an event gives is the first new one; only an end gives none and adds none. -/
theorem feed_first_new (event : Event) :
    (event = .close ∧ (b.feed event).1 = none ∧ (b.feed event).2.finish = b.finish) ∨
      (event ≠ .close ∧ (b.feed event).1 = some b.nodes.size ∧
        b.nodes.size < (b.feed event).2.nodes.size) := by
  by_cases hclose : event = .close
  · subst hclose
    exact .inl ⟨rfl, rfl, b.finish_closeElement⟩
  · have hid : (b.feed event).1 = some b.nodes.size := by
      cases event with
      | close => exact absurd rfl hclose
      | start | empty | text | cdata | comment | doctype | declaration | instruction => rfl
    refine .inr ⟨hclose, hid, ?_⟩
    have hfed := b.fed_feed event
    rw [hid] at hfed
    cases hfed with
    | added hgrows => exact hgrows.size_lt
    | opened hgrows => exact hgrows.size_lt

/-- After any events the row of nodes is in order. The next event gives the next free number when
it adds nodes, and no later ones change what the nodes are, their parents or the nodes that they
follow. -/
theorem wellBuilt_feedAll (before : List Event) :
    let b := (initial.feedAll before).2
    b.finish.WellBuilt ∧
      (∀ event,
        (event = .close ∧ (b.feed event).1 = none ∧ (b.feed event).2.finish = b.finish) ∨
        (event ≠ .close ∧ (b.feed event).1 = some b.nodes.size ∧
          b.nodes.size < (b.feed event).2.nodes.size)) ∧
      ∀ after, b.Keeps (b.feedAll after).2 :=
  ⟨(sound_initial.feedAll before).wellBuilt, Builder.feed_first_new _, Builder.keeps_feedAll _⟩

end TreeQuery.Builder

namespace TreeQuery.Document

theorem wellBuilt_ofEvents (events : List Event) : (ofEvents events).WellBuilt :=
  (Builder.sound_initial.feedAll events).wellBuilt

end TreeQuery.Document
