import TreeQuery.Proofs.Tree.Stored.Opening

/-!
Kept documents and what they stand for. A builder that keeps numbers of strings does, event by
event, what a builder over strings does with what is read for the numbers; so a kept document is
always well-built. While its pool takes less than `2 ^ 32` bytes, numbers are as good as strings,
and what the document shows is what the events say.
-/
namespace TreeQuery.Stored

attribute [local irreducible] StringPool.intern

variable {pool next : StringPool}

/-! ## Builders -/

namespace Builder

open TreeQuery.Builder (wordMax plainAttrs ownedContents innerScope)

/-- The builder with strings in place of their numbers. -/
def read (b : Builder) : TreeQuery.Builder :=
  { nodes := b.nodes.map (Node.read b.strings)
    scope := b.scope.read b.strings
    openElements := b.openElements
    rootElement := b.rootElement }

def contents (b : Builder) : Array Content := b.nodes.map (·.content)

/-- All numbers that a builder holds are given. -/
structure Kept (b : Builder) : Prop where
  laid : b.strings.Laid
  contents : ∀ c ∈ b.contents, c.KnownTo b.strings
  scope : b.scope.KnownTo b.strings

variable {b : Builder} {content : Content} {strings : StringPool}

theorem Kept.grows (h : b.Kept) (hg : b.strings.Grows strings) : { b with strings }.Kept :=
  ⟨hg.laid, fun c hc => (h.contents c hc).grows hg, h.scope.grows hg⟩

theorem Kept.read_eq (h : b.Kept) (hg : b.strings.Grows strings) :
    { b with strings }.read = b.read := by
  have hnodes : b.nodes.map (Node.read strings) = b.nodes.map (Node.read b.strings) :=
    Array.map_congr_left fun n hn => by
      rw [Node.read, (h.contents _ (Array.mem_map_of_mem hn)).read_eq hg, Node.read]
  rw [read, hnodes, h.scope.read_eq hg, read]

theorem size_read (b : Builder) : b.read.nodes.size = b.nodes.size := Array.size_map ..

theorem depth_read (b : Builder) : b.read.depth = b.depth := by
  have hnode : b.read.nodes[b.parent]? = (b.nodes[b.parent]?).map (Node.read b.strings) :=
    Array.getElem?_map ..
  rw [TreeQuery.Builder.depth, depth, show b.read.parent = b.parent from rfl, hnode]
  cases b.nodes[b.parent]? <;> rfl

/-- The last child of the node that the next node becomes a child of. -/
def lastOfParent (b : Builder) : Option NodeId := (b.nodes[b.parent]?).bind (·.lastChild)

theorem lastOfParent_read (b : Builder) : b.read.lastOfParent = b.lastOfParent := by
  have hnode : b.read.nodes[b.parent]? = (b.nodes[b.parent]?).map (Node.read b.strings) :=
    Array.getElem?_map ..
  change (b.read.nodes[b.parent]?).bind (·.lastChild) = _
  rw [hnode, Option.bind_map]
  rfl

/-- The nodes that are there, with links to the next node. -/
def relinked (b : Builder) : Array Node :=
  let nodes := b.nodes.modify b.parent fun p =>
    { p with firstChild := p.firstChild.or (some b.nodes.size), lastChild := some b.nodes.size }
  match b.lastOfParent with
  | some sibling => nodes.modify sibling fun n => { n with nextSibling := some b.nodes.size }
  | none => nodes

theorem map_modify {α β : Type} {r : α → β} {f : α → α} {g : β → β} (h : ∀ a, r (f a) = g (r a))
    (xs : Array α) (i : Nat) : (xs.modify i f).map r = (xs.map r).modify i g := by
  refine Array.ext_getElem? fun j => ?_
  rw [Array.getElem?_map, Array.getElem?_modify, Array.getElem?_modify, Array.getElem?_map]
  split
  · rw [Option.map_map, Option.map_map]
    exact congrArg (Option.map · _) (funext h)
  · rfl

theorem relinked_read (b : Builder) :
    b.read.relinked = b.relinked.map (Node.read b.strings) := by
  rw [TreeQuery.Builder.relinked, relinked, lastOfParent_read, size_read]
  cases b.lastOfParent with
  | none => exact (map_modify (by intro n; rfl) _ _).symm
  | some sibling =>
      have hlink := map_modify (r := Node.read b.strings)
        (f := fun n => { n with nextSibling := some b.nodes.size })
        (g := fun n => { n with nextSibling := some b.nodes.size }) (by intro n; rfl)
      refine ((hlink _ _).trans ?_).symm
      exact congrArg (Array.modify · sibling _) (map_modify (by intro n; rfl) _ _)

theorem read_addChild (b : Builder) (content : Content) :
    (b.addChild content).read = b.read.addChild (content.read b.strings) := by
  have hnodes : (b.addChild content).nodes.map (Node.read b.strings) =
      (b.read.addChild (content.read b.strings)).nodes := by
    rw [TreeQuery.Builder.addChild_nodes, relinked_read, lastOfParent_read, depth_read]
    exact Array.map_push
  exact congrArg (fun nodes => ({ b.read with nodes } : TreeQuery.Builder)) hnodes

theorem read_addOwned (b : Builder) (owner : NodeId) (depth : UInt16) (contents : List Content) :
    (b.addOwned owner depth contents).read =
      b.read.addOwned owner depth (contents.map (Content.read b.strings)) := by
  have hnodes : (b.addOwned owner depth contents).nodes.map (Node.read b.strings) =
      (b.read.addOwned owner depth (contents.map (Content.read b.strings))).nodes := by
    rw [addOwned, TreeQuery.Builder.addOwned, List.foldl_push_eq_append, List.foldl_push_eq_append,
      Array.map_append]
    refine congrArg (b.read.nodes ++ ·) ?_
    simp [Function.comp_def, Node.read]
  exact congrArg (fun nodes => ({ b.read with nodes } : TreeQuery.Builder)) hnodes

theorem read_closeElement (b : Builder) : b.closeElement.read = b.read.closeElement := by
  have hopen : b.read.openElements = b.openElements := rfl
  rw [closeElement, TreeQuery.Builder.closeElement, hopen]
  cases b.openElements with
  | nil => rfl
  | cons e outer => rw [read, read, Scope.read_pop]

/-- What is read for the nodes grows by an element with its bindings and attributes behind it. -/
theorem Kept.nodes_openElement (h : b.Kept) {name : String} {attrs : WrittenAttrs} {o : Opening}
    (ho : Opening.of b.scope b.strings name attrs = o) :
    (b.openElement name attrs).2.read.nodes =
      b.read.grown (.element (o.name.read o.strings) o.bindings.length o.attrs.length)
        (b.depth + 1) (o.bindings.map (fun (pfx, uri) =>
            .binding (o.strings.get pfx) (o.strings.get uri)) ++
          o.attrs.map (Content.read o.strings)) := by
  have hgrows : b.strings.Grows o.strings := ho ▸ (Opening.known h.scope h.laid name attrs).1
  have helement : o.element.read o.strings = _ := ho ▸ Opening.element_read b.scope name attrs
  have hchild : ({ b with strings := o.strings }.addChild o.element).read =
      b.read.addChild (.element (o.name.read o.strings) o.bindings.length o.attrs.length) := by
    rw [read_addChild, h.read_eq hgrows]
    exact congrArg _ helement
  have hnodes : (b.openElement name attrs).2.read.nodes =
      (({ b with strings := o.strings }.addChild o.element).addOwned b.nodes.size (b.depth + 1)
        o.owned).read.nodes := by
    subst ho
    rfl
  have howned : o.owned.map (Content.read o.strings) = _ := List.map_append
  rw [List.map_map] at howned
  rw [hnodes, read_addOwned, hchild, ← size_read]
  exact congrArg (b.read.grown _ _) howned

/-! ### One event -/

theorem contents_addChild (b : Builder) (content : Content) :
    (b.addChild content).contents = b.contents.push content := by
  have hkept : ∀ {nodes : Array Node} {i : Nat} {f : Node → Node},
      (∀ n, (f n).content = n.content) →
        (nodes.modify i f).map (·.content) = nodes.map (·.content) := by
    intro nodes i f hf
    refine (@map_modify _ _ (·.content) f id hf nodes i).trans ?_
    exact Array.ext_getElem? fun j => by simp [Array.getElem?_modify]
  have hrelinked : b.relinked.map (·.content) = b.contents := by
    rw [relinked]
    cases b.lastOfParent with
    | none => exact hkept (by intro n; rfl)
    | some sibling => exact (hkept (by intro n; rfl)).trans (hkept (by intro n; rfl))
  rw [← hrelinked]
  exact Array.map_push

theorem contents_addOwned (b : Builder) (owner : NodeId) (depth : UInt16) (owned : List Content) :
    (b.addOwned owner depth owned).contents = b.contents ++ owned.toArray := by
  rw [contents, addOwned, List.foldl_push_eq_append, Array.map_append]
  refine congrArg (b.contents ++ ·) ?_
  simp [Function.comp_def]

theorem Kept.addChild (h : b.Kept) (hc : content.KnownTo b.strings) :
    (b.addChild content).Kept := by
  refine ⟨h.laid, fun c hmem => ?_, h.scope⟩
  rw [contents_addChild, Array.mem_push] at hmem
  rcases hmem with hmem | rfl
  · exact h.contents c hmem
  · exact hc

theorem Kept.openElement (h : b.Kept) (name : String) (attrs : WrittenAttrs) :
    b.strings.Grows (b.openElement name attrs).2.strings ∧ (b.openElement name attrs).2.Kept := by
  obtain ⟨hgrows, hknown⟩ := Opening.known h.scope h.laid name attrs
  refine ⟨hgrows, hgrows.laid, fun c hmem => ?_, hknown.scope⟩
  have hcontents : (b.openElement name attrs).2.contents =
      b.contents.push _ ++ _ :=
    (contents_addOwned _ _ _ _).trans (congrArg (· ++ _) (contents_addChild _ _))
  rw [hcontents, Array.mem_append, Array.mem_push] at hmem
  rcases hmem with (hmem | rfl) | hmem
  · exact (h.contents c hmem).grows hgrows
  · exact hknown.element
  · exact hknown.owned c (List.mem_toArray.mp hmem)

theorem Kept.closeElement (h : b.Kept) : b.closeElement.Kept := by
  rw [Builder.closeElement]
  split
  · exact h
  · exact ⟨h.laid, h.contents, h.scope.pop⟩

theorem strings_closeElement (b : Builder) : b.closeElement.strings = b.strings := by
  rw [closeElement]
  split <;> rfl

theorem Kept.addLeaf (h : b.Kept) {content : UInt32 → Content}
    (hids : ∀ id, (content id).ids = [id]) (value : String) :
    b.strings.Grows (b.addLeaf content value).2.strings ∧ (b.addLeaf content value).2.Kept := by
  have hgrows := h.laid.grows_intern value
  refine ⟨hgrows, (h.grows hgrows).addChild ?_⟩
  rw [Content.KnownTo, hids]
  exact List.forall_mem_singleton.mpr (h.laid.intern_lt value)

theorem Kept.addInstruction (h : b.Kept) (target value : String) :
    b.strings.Grows (b.addInstruction target value).2.strings ∧
      (b.addInstruction target value).2.Kept := by
  have hgrows := h.laid.grows_intern target
  have hgrows' := hgrows.laid.grows_intern value
  refine ⟨hgrows.trans hgrows', (h.grows (hgrows.trans hgrows')).addChild ?_⟩
  exact List.forall_mem_cons.mpr ⟨hgrows'.lt (h.laid.intern_lt target),
    List.forall_mem_singleton.mpr (hgrows.laid.intern_lt value)⟩

/-- An event makes the pool grow and adds no number that is not given. -/
theorem Kept.feed (h : b.Kept) (event : Event) :
    b.strings.Grows (b.feed event).2.strings ∧ (b.feed event).2.Kept := by
  cases event with
  | start name attrs => exact h.openElement name attrs
  | close =>
      exact ⟨b.strings_closeElement.symm ▸ h.laid.grows, h.closeElement⟩
  | empty name attrs =>
      obtain ⟨hgrows, hkept⟩ := h.openElement name attrs
      exact ⟨hgrows, hkept.closeElement⟩
  | text value | cdata value | comment value | doctype value | declaration value =>
      exact h.addLeaf (fun _ => rfl) value
  | instruction target value => exact h.addInstruction target value

theorem Kept.grows_openElement (h : b.Kept) (name : String) (attrs : WrittenAttrs) :
    ∃ content, content.kind = .element ∧
      b.read.Grows (b.openElement name attrs).2.read content := by
  let o := Opening.of b.scope b.strings name attrs
  refine ⟨_, rfl, ⟨_, _, h.nodes_openElement rfl, ?_, fun i c hc => ?_⟩, ?_, rfl⟩
  · simp [TreeQuery.Content.counts]
  · refine (TreeQuery.Builder.kind_of_append ?_ ?_ hc).trans (by rw [List.length_map]; rfl)
    · intro c hc
      obtain ⟨_, _, rfl⟩ := List.mem_map.mp hc
      rfl
    · intro c hc
      obtain ⟨stored, hstored, rfl⟩ := List.mem_map.mp hc
      exact Scope.kind_attrs _ _ _ _ _ hstored
  · rw [size_read]
    simp only [TreeQuery.Content.kind, true_and]
    rfl

theorem Kept.read_addLeaf (h : b.Kept) (content : UInt32 → Content) (value : String) :
    (b.addLeaf content value).2.read = b.read.addChild
      ((content (b.strings.intern value).1).read (b.strings.intern value).2) := by
  rw [Builder.addLeaf, read_addChild, h.read_eq (h.laid.grows_intern value)]

theorem Kept.read_addInstruction (h : b.Kept) (target value : String) :
    (b.addInstruction target value).2.read = b.read.addChild
      (.instruction
        (((b.strings.intern target).2.intern value).2.get (b.strings.intern target).1)
        (((b.strings.intern target).2.intern value).2.get
          ((b.strings.intern target).2.intern value).1)) := by
  have hgrows := h.laid.grows_intern target
  rw [Builder.addInstruction, read_addChild,
    h.read_eq (hgrows.trans (hgrows.laid.grows_intern value))]
  rfl

theorem fed_of_read {b' : Builder} {content : TreeQuery.Content}
    (hread : b'.read = b.read.addChild content) (hcounts : content.counts = (0, 0))
    (helement : content.kind ≠ .element) (howned : content.kind.isOwned = false) :
    b.read.Fed (some b.nodes.size) b'.read := by
  rw [hread, ← size_read]
  exact .added (b.read.grows_addChild content hcounts helement howned) rfl

/-- What is read of a builder changes as a builder over strings does. -/
theorem Kept.fed (h : b.Kept) (event : Event) :
    b.read.Fed (b.feed event).1 (b.feed event).2.read := by
  cases event with
  | start name attrs =>
      obtain ⟨content, hkind, hgrows⟩ := h.grows_openElement name attrs
      change b.read.Fed (some b.nodes.size) (b.openElement name attrs).2.read
      rw [← size_read]
      refine .opened hgrows hkind ?_
      rw [size_read]
      rfl
  | close =>
      change b.read.Fed none b.closeElement.read
      rw [read_closeElement]
      exact .closed (TreeQuery.Builder.finish_closeElement _)
        (TreeQuery.Builder.openElements_closeElement _)
  | empty name attrs =>
      obtain ⟨content, hkind, hgrows⟩ := h.grows_openElement name attrs
      change b.read.Fed (some b.nodes.size) (b.openElement name attrs).2.closeElement.read
      rw [read_closeElement, ← size_read]
      exact .added hgrows.closeElement (TreeQuery.Builder.openElements_closeElement _)
  | text value | cdata value | comment value | doctype value | declaration value =>
      exact fed_of_read (h.read_addLeaf _ value) rfl
        (by simp [Content.read, TreeQuery.Content.kind]) rfl
  | instruction target value =>
      exact fed_of_read (h.read_addInstruction target value) rfl (by simp [TreeQuery.Content.kind])
        rfl

/-! ### Room for all strings -/

theorem Kept.read_openElement (h : b.Kept) (hf : b.scope.Faithful b.strings) {name : String}
    {attrs : WrittenAttrs} (hroom : (b.openElement name attrs).2.strings.byteSize < UInt32.size) :
    (b.openElement name attrs).2.read = (b.read.openElement name attrs).2 ∧
      (b.openElement name attrs).2.scope.Faithful (b.openElement name attrs).2.strings := by
  let o := Opening.of b.scope b.strings name attrs
  obtain ⟨hfaithful, hscope, hname, hattrs⟩ := Opening.faithful h.scope h.laid name attrs hf hroom
  have hbindings : ((innerScope (b.scope.read b.strings) attrs).bindings.take wordMax) =
      o.bindings.map fun entry => (o.strings.get entry.1, o.strings.get entry.2) := by
    rw [← hscope, hfaithful.bindings_read (Opening.known h.scope h.laid name attrs).2.scope,
      ← List.map_take]
    rfl
  have hlength : o.attrs.length = (plainAttrs attrs).length := Scope.length_attrs _ _ _
  have hinner : innerScope b.read.scope attrs = innerScope (b.scope.read b.strings) attrs := rfl
  have hnodes : (b.openElement name attrs).2.read.nodes =
      (b.read.openElement name attrs).2.nodes := by
    rw [h.nodes_openElement rfl, TreeQuery.Builder.openElement_nodes, hname, hattrs, depth_read,
      ownedContents, hinner, hbindings, List.length_map, List.map_map, hlength]
    rfl
  have hroot : (b.openElement name attrs).2.rootElement =
      (b.read.openElement name attrs).2.rootElement := by
    change _ = b.rootElement.or
      (if b.parent = View.documentNode then some b.read.nodes.size else none)
    rw [size_read]
    rfl
  have hopen : (b.openElement name attrs).2.openElements =
      (b.read.openElement name attrs).2.openElements := by
    change _ = b.read.nodes.size :: b.openElements
    rw [size_read]
    rfl
  exact ⟨(TreeQuery.Builder.mk.injEq ..).mpr ⟨hnodes, hscope, hopen, hroot⟩, hfaithful⟩

theorem Kept.read_leaf (h : b.Kept) (hf : b.scope.Faithful b.strings)
    {content : UInt32 → Content} {told : String → TreeQuery.Content}
    (htold : ∀ id pool, (content id).read pool = told (pool.get id)) {value : String}
    (hroom : (b.addLeaf content value).2.strings.byteSize < UInt32.size) :
    (b.addLeaf content value).2.read = b.read.addChild (told value) ∧
      (b.addLeaf content value).2.scope.Faithful (b.addLeaf content value).2.strings := by
  have hgrows := h.laid.grows_intern value
  refine ⟨?_, hf.grows h.scope hgrows hroom⟩
  rw [h.read_addLeaf, htold, hf.whole.get_intern h.laid hgrows.laid.grows hroom]

theorem Kept.read_instruction (h : b.Kept) (hf : b.scope.Faithful b.strings)
    {target value : String}
    (hroom : (b.addInstruction target value).2.strings.byteSize < UInt32.size) :
    (b.addInstruction target value).2.read = b.read.addChild (.instruction target value) ∧
      (b.addInstruction target value).2.scope.Faithful
        (b.addInstruction target value).2.strings := by
  have hgrows := h.laid.grows_intern target
  have hgrows' := hgrows.laid.grows_intern value
  have hroom' := hgrows'.room hroom
  refine ⟨?_, hf.grows h.scope (hgrows.trans hgrows') hroom⟩
  rw [h.read_addInstruction, hf.whole.get_intern h.laid hgrows' hroom,
    (hgrows.whole hf.whole hroom').get_intern hgrows.laid hgrows'.laid.grows hroom]

theorem faithful_closeElement (hf : b.scope.Faithful b.strings) :
    b.closeElement.scope.Faithful b.closeElement.strings := by
  rw [closeElement]
  split
  · exact hf
  · exact ⟨hf.whole, hf.xml, hf.xmlns⟩

/-- While there is room for all strings, an event does what it does to a builder over strings. -/
theorem Kept.read_feed (h : b.Kept) (hf : b.scope.Faithful b.strings) {event : Event}
    (hroom : (b.feed event).2.strings.byteSize < UInt32.size) :
    (b.feed event).2.read = (b.read.feed event).2 ∧
      (b.feed event).2.scope.Faithful (b.feed event).2.strings := by
  cases event with
  | start name attrs => exact h.read_openElement hf hroom
  | close => exact ⟨b.read_closeElement, faithful_closeElement hf⟩
  | empty name attrs =>
      change (b.openElement name attrs).2.closeElement.strings.byteSize < _ at hroom
      rw [strings_closeElement] at hroom
      obtain ⟨hread, hopen⟩ := h.read_openElement hf hroom
      have hclosed := (b.openElement name attrs).2.read_closeElement
      rw [hread] at hclosed
      have hfaithful := faithful_closeElement hopen
      exact ⟨hclosed, hfaithful⟩
  | text value | cdata value | comment value | doctype value | declaration value =>
      exact h.read_leaf hf (fun _ _ => rfl) hroom
  | instruction target value => exact h.read_instruction hf hroom

/-! ### All events -/

theorem Kept.feedAll (h : b.Kept) (events : List Event) :
    b.strings.Grows (b.feedAll events).2.strings ∧ (b.feedAll events).2.Kept := by
  induction events generalizing b with
  | nil => exact ⟨h.laid.grows, h⟩
  | cons event events ih =>
      obtain ⟨hgrows, hkept⟩ := h.feed event
      obtain ⟨hrest, hkept'⟩ := ih hkept
      exact ⟨hgrows.trans hrest, hkept'⟩

theorem Kept.sound_feedAll (h : b.Kept) (hb : b.read.Sound) (events : List Event) :
    (b.feedAll events).2.read.Sound := by
  induction events generalizing b with
  | nil => exact hb
  | cons event events ih => exact ih (h.feed event).2 (hb.fed (h.fed event))

theorem fst_feed (b : Builder) (event : Event) : (b.feed event).1 = (b.read.feed event).1 := by
  have hsize := congrArg some b.size_read.symm
  cases event with
  | close => rfl
  | start | empty | text | cdata | comment | doctype | declaration | instruction => exact hsize

/-- Events give the numbers and make the nodes that they give and make over strings. -/
theorem Kept.read_feedAll (h : b.Kept) (hf : b.scope.Faithful b.strings) {events : List Event}
    (hroom : (b.feedAll events).2.strings.byteSize < UInt32.size) :
    (b.feedAll events).1 = (b.read.feedAll events).1 ∧
      (b.feedAll events).2.read = (b.read.feedAll events).2 := by
  induction events generalizing b with
  | nil => exact ⟨rfl, rfl⟩
  | cons event events ih =>
      obtain ⟨-, hkept⟩ := h.feed event
      have hrest := (hkept.feedAll events).1
      obtain ⟨hread, hfaithful⟩ := h.read_feed hf (hrest.room hroom)
      obtain ⟨hids, hall⟩ := ih hkept hfaithful hroom
      rw [hread] at hids hall
      exact ⟨List.cons_eq_cons.mpr ⟨b.fst_feed event, hids⟩, hall⟩

theorem nodes_initial (hash : String → UInt64) :
    (initial hash).read.nodes = TreeQuery.Builder.initial.nodes := by
  change #[({ content := .document, parent := none, depth := 0 } : Node)].map _ = _
  simp [Node.read, Content.read, TreeQuery.Builder.initial]

theorem kept_initial (hash : String → UInt64) : (initial hash).Kept := by
  obtain ⟨hgrows, hknown⟩ := Scope.initial_known (StringPool.laid_empty hash)
  refine ⟨hgrows.laid, fun c hc => ?_, hknown⟩
  obtain ⟨n, hn, rfl⟩ := Array.mem_map.mp hc
  change n ∈ #[({ content := .document, parent := none, depth := 0 } : Node)] at hn
  rw [Array.mem_singleton] at hn
  subst hn
  exact List.forall_mem_nil _

theorem sound_initial (hash : String → UInt64) : (initial hash).read.Sound := by
  have hfinish : (initial hash).read.finish = TreeQuery.Builder.initial.finish :=
    congrArg (TreeQuery.Document.mk · none) (nodes_initial hash)
  have hsound := TreeQuery.Builder.sound_initial
  exact ⟨hfinish ▸ hsound.wellBuilt, hfinish ▸ hsound.openPath⟩

theorem read_initial {hash : String → UInt64}
    (hroom : (initial hash).strings.byteSize < UInt32.size) :
    (initial hash).scope.Faithful (initial hash).strings ∧
      (initial hash).read = TreeQuery.Builder.initial := by
  obtain ⟨hfaithful, hread⟩ := Scope.initial_faithful (StringPool.laid_empty hash)
    ⟨[], StringPool.stores_empty hash⟩ hroom
  exact ⟨hfaithful, (TreeQuery.Builder.mk.injEq ..).mpr ⟨nodes_initial hash, hread, rfl, rfl⟩⟩

end Builder

/-! ## Documents -/

namespace Content

variable {content : Content} (h : content.KnownTo pool) (hwhole : pool.Whole)
include h hwhole

theorem getNonEmpty?_of_mem {id : UInt32} (hid : id ∈ content.ids) :
    pool.getNonEmpty? id = nonEmpty? (pool.get id) := by
  rw [StringPool.getNonEmpty?, nonEmpty?]
  exact if_congr (hwhole.get_eq_empty_iff (h id hid)).symm rfl rfl

theorem pfx?_read : (content.read pool).pfx? = pool.getNonEmpty? content.pfx := by
  cases content with
  | element name | attr name =>
      exact (getNonEmpty?_of_mem h hwhole (by simp [ids, Name.ids])).symm
  | _ => rfl

theorem uri?_read : (content.read pool).uri? = pool.getNonEmpty? content.uri := by
  cases content with
  | element name | attr name =>
      exact (getNonEmpty?_of_mem h hwhole (by simp [ids, Name.ids])).symm
  | _ => rfl

end Content

namespace Document

theorem content?_read (d : Document) (id : NodeId) :
    d.read.content? id = (d.nodes[id]?).map fun n => n.content.read d.strings := by
  rw [TreeQuery.Document.content?, TreeQuery.Document.node?, read, Array.getElem?_map,
    Option.map_map]
  rfl

/-- Where numbers are as good as strings, a document shows what is read of it. -/
theorem view_eq {d : Document} (hwhole : d.strings.Whole)
    (hknown : ∀ n ∈ d.nodes, n.content.KnownTo d.strings) : d.view = d.read.view := by
  have hmem : ∀ {id : NodeId} {n : Node}, d.nodes[id]? = some n → n.content.KnownTo d.strings :=
    fun hn => hknown _ (Array.mem_of_getElem? hn)
  have hpfx : ∀ id : NodeId, ((d.nodes[id]?).bind fun n => d.strings.getNonEmpty? n.content.pfx) =
      (d.read.content? id).bind TreeQuery.Content.pfx? := by
    intro id
    rw [content?_read, Option.bind_map]
    exact Option.bind_congr fun n hn => (Content.pfx?_read (hmem hn) hwhole).symm
  have huri : ∀ id : NodeId, ((d.nodes[id]?).bind fun n => d.strings.getNonEmpty? n.content.uri) =
      (d.read.content? id).bind TreeQuery.Content.uri? := by
    intro id
    rw [content?_read, Option.bind_map]
    exact Option.bind_congr fun n hn => (Content.uri?_read (hmem hn) hwhole).symm
  rw [view, funext hpfx, funext huri]
  rfl

variable {hash : String → UInt64} {events : List Event}

/-- A kept document is well-built, however large its strings are. -/
theorem wellBuilt_read (hash : String → UInt64) (events : List Event) :
    (ofEvents hash events).read.WellBuilt :=
  ((Builder.kept_initial hash).sound_feedAll (Builder.sound_initial hash) events).wellBuilt

/-- While its pool takes less than `2 ^ 32` bytes, a kept document has the numbers of nodes that the
document over strings has, and shows the same. -/
theorem view_ofEvents (hroom : (ofEvents hash events).strings.byteSize < UInt32.size) :
    ((Builder.initial hash).feedAll events).1 = (TreeQuery.Builder.initial.feedAll events).1 ∧
      (ofEvents hash events).view = (TreeQuery.Document.ofEvents events).view := by
  obtain ⟨hgrows, hkept⟩ := (Builder.kept_initial hash).feedAll events
  obtain ⟨hfaithful, hinitial⟩ :=
    Builder.read_initial (hgrows.room hroom)
  obtain ⟨hids, hread⟩ := (Builder.kept_initial hash).read_feedAll hfaithful hroom
  rw [hinitial] at hids hread
  refine ⟨hids, (view_eq (hgrows.whole hfaithful.whole hroom) fun n hn =>
    hkept.contents _ (Array.mem_map_of_mem hn)).trans ?_⟩
  exact congrArg (fun b : TreeQuery.Builder => b.finish.view) hread

end Document

end TreeQuery.Stored
