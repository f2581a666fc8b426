import TreeQuery.Proofs.Tree.Forest
import TreeQuery.Proofs.Tree.Naming

/-!
What is read from a document is the forest that its events describe. While a document is built, the
trees that are still to come below the open nodes are those that the remaining events describe, and
nothing comes below other nodes any more.
-/
namespace TreeQuery

/-! ## Reading a well-built document -/

namespace Document

variable {d : Document} {id : Nat}

/-- All that is read from a node on. -/
def tree (d : Document) (id : NodeId) : Tree := d.view.readFrom d.size id

/-- The trees below a node whose roots have at least the given number. -/
def treesFrom (d : Document) (least parent : Nat) : List Tree :=
  ((d.offspring parent).filter (least ≤ ·)).map d.tree

namespace WellBuilt

variable (h : d.WellBuilt)
include h

theorem children_eq_nil (hid : d.size ≤ id) : d.children id = [] := by
  rw [h.children_eq]
  refine offspring_eq_nil fun child hchild => ?_
  have hlt := h.parent_lt child id hchild
  have hsize := lt_size_of_parent? hchild
  omega

/-- Nothing is deeper than there are nodes behind the one where reading begins. -/
theorem readFrom_eq {m n : Nat} (hm : d.size ≤ m + id) (hn : d.size ≤ n + id) :
    d.view.readFrom m id = d.view.readFrom n id := by
  induction m generalizing n id with
  | zero =>
      cases n with
      | zero => rfl
      | succ n =>
          rw [View.readFrom, View.readFrom,
            show d.view.children id = [] from h.children_eq_nil (by omega), List.map_nil]
  | succ m ih =>
      cases n with
      | zero =>
          rw [View.readFrom, View.readFrom,
            show d.view.children id = [] from h.children_eq_nil (by omega), List.map_nil]
      | succ n =>
          rw [View.readFrom, View.readFrom]
          refine congrArg _ (List.map_congr_left fun child hchild => ?_)
          rw [show d.view.children id = d.offspring id from h.children_eq] at hchild
          have hlt := h.parent_lt child id (mem_offspring.mp hchild).1
          exact ih (by omega) (by omega)

theorem tree_eq : d.tree id = d.view.nodeRead id ((d.offspring id).map d.tree) := by
  have hdeeper : d.size ≤ d.size + 1 + id := by omega
  rw [tree, h.readFrom_eq (Nat.le_add_right ..) hdeeper, View.readFrom,
    show d.view.children id = d.offspring id from h.children_eq]
  rfl

/-- Children stand behind their parent. -/
theorem treesFrom_of_le {least : Nat} (hle : least ≤ id + 1) :
    d.treesFrom least id = (d.offspring id).map d.tree := by
  rw [treesFrom, List.filter_eq_self.mpr]
  intro child hchild
  have hlt := h.parent_lt child id (mem_offspring.mp hchild).1
  exact decide_eq_true (by omega)

end WellBuilt

end Document

/-! ## Names -/

namespace QName

/-- A name with its prefix, when it has one. -/
def joined (name : QName) : String :=
  if name.pfx = "" then name.localPart else name.pfx ++ ":" ++ name.localPart

theorem shown_of_head? {written : String} (h : written.toList.head? ≠ some ':') :
    shown written = written := by
  rw [shown]
  split
  · rename_i localPart heq
    exact absurd (by rw [heq]; rfl) h
  · rfl

theorem joined_split (written uri : String) :
    joined ⟨(split written).1, (split written).2, uri⟩ = shown written := by
  have hcut := List.head?_dropWhile_not (· != ':') written.toList
  have happend := @List.takeWhile_append_dropWhile _ (· != ':') written.toList
  by_cases hhead : written.toList.head? = some ':'
  · obtain ⟨localPart, hlist⟩ := List.head?_eq_some_iff.mp hhead
    simp [joined, split, shown, hlist]
  · rw [shown_of_head? hhead, split]
    cases hdrop : written.toList.dropWhile (· != ':') with
    | nil => simp [joined]
    | cons c localPart =>
        rw [hdrop] at hcut happend
        obtain rfl : c = ':' := by simpa using hcut
        have hpfx : String.ofList (written.toList.takeWhile (· != ':')) ≠ "" := by
          intro hempty
          have hnil := congrArg String.toList hempty
          rw [String.toList_ofList] at hnil
          rw [hnil] at happend
          exact hhead (by rw [← happend]; rfl)
        rw [joined, if_neg hpfx, ← String.toList_inj]
        simpa using happend

end QName

theorem View.name?_eq {v : View} {id : NodeId} {name : QName}
    (hlocal : v.localName? id = some name.localPart) (hpfx : v.pfx? id = nonEmpty? name.pfx) :
    v.name? id = some name.joined := by
  rw [View.name?, hlocal, hpfx, nonEmpty?, QName.joined]
  by_cases hempty : name.pfx = ""
  · simp [hempty]
  · simp [hempty]

/-! ## Single nodes -/

theorem map_range'_length {α β : Type} {f : Nat → β} {g : α → β} {l : List α} {start : Nat}
    (h : ∀ i a, l[i]? = some a → f (start + i) = g a) :
    (List.range' start l.length).map f = l.map g := by
  induction l generalizing start with
  | nil => rfl
  | cons a l ih =>
      rw [List.length_cons, List.range'_succ, List.map_cons, List.map_cons,
        show f start = g a from h 0 a rfl, ih fun i b hb => ?_]
      rw [Nat.add_assoc, Nat.add_comm 1 i]
      exact h (i + 1) b hb

namespace Document

variable {d : Document} {id : Nat}

/-- A node without attributes and prefix. -/
theorem nodeRead_plain {content : Content} (hcontent : d.content? id = some content)
    (hcounts : content.counts = (0, 0)) (hpfx : content.pfx? = none) (children : List Tree) :
    d.view.nodeRead id children =
      .node content.kind content.localName? content.value? [] children := by
  have hattrs : d.view.attributes id = [] := by
    change d.attributes id = []
    rw [attributes_of_content? hcontent, hcounts]
    rfl
  have hname : d.view.name? id = content.localName? := by
    simp [View.name?, view, hcontent, hpfx]
  have hvalue : d.view.value? id = content.value? := by
    simp [view, hcontent]
  rw [View.nodeRead, hattrs, hname, hvalue, show d.view.kind id = d.kind id from rfl,
    kind_of_content? hcontent]
  rfl

end Document

namespace Builder

variable {b b' c : Builder} {name : String} {attrs : WrittenAttrs} {content : Content}
  {events : List Event} {d : Document} {p : Nat}

theorem plainAttrs_eq (hfew : attrs.plain.length ≤ wordMax) : plainAttrs attrs = attrs.plain := by
  have hplain : ∀ name : String, (declared? name).isNone =
      !(name == "xmlns" || "xmlns:".isPrefixOf name) := by
    intro name
    rw [declared?]
    split
    · simp_all
    · split <;> simp_all
  have hfilter : (attrs.filter fun attr => (declared? attr.1).isNone) = attrs.plain :=
    List.filter_congr fun attr _ => hplain attr.1
  change (attrs.filter fun attr => (declared? attr.1).isNone).take wordMax = _
  rw [hfilter, List.take_of_length_le hfew]

/-- An element reads as it was written, with whatever comes below it. -/
theorem nodeRead_element (hnodes : b'.nodes = (b.openElement name attrs).2.nodes)
    (hkeeps : b'.Keeps c) (hfew : attrs.plain.length ≤ wordMax) (children : List Tree) :
    c.finish.view.nodeRead b.nodes.size children = .element name attrs children := by
  have hcontent := hkeeps.content? (content?_openElement hnodes)
  rw [plainAttrs_eq hfew] at hcontent
  have hname : c.finish.view.name? b.nodes.size = some (QName.shown name) := by
    rw [View.name?_eq (congrArg (fun c => c.bind Content.localName?) hcontent)
      (congrArg (fun c => c.bind Content.pfx?) hcontent)]
    exact congrArg some (QName.joined_split ..)
  have hvalue : c.finish.view.value? b.nodes.size = none :=
    congrArg (fun c => c.bind Content.value?) hcontent
  have hattr : ∀ i attr, attrs.plain[i]? = some attr →
      c.finish.content? (b.nodes.size + 1 +
          ((innerScope b.scope attrs).bindings.take wordMax).length + i) =
        some (.attr (attrName (innerScope b.scope attrs) attr.1) attr.2) := by
    intro i attr hi
    rw [Nat.add_assoc]
    refine hkeeps.content? (content?_owned hnodes ?_)
    rw [ownedContents, plainAttrs_eq hfew,
      List.getElem?_append_right (by rw [List.length_map]; omega), List.length_map,
      Nat.add_sub_cancel_left, List.getElem?_map, hi]
    rfl
  have hattrs : (c.finish.view.attributes b.nodes.size).map
      (fun attr => (c.finish.view.name? attr, c.finish.view.value? attr)) =
        attrs.plain.map fun attr => (some (QName.shown attr.1), some attr.2) := by
    change (c.finish.attributes b.nodes.size).map _ = _
    rw [Document.attributes_of_content? hcontent]
    refine map_range'_length fun i attr hi => ?_
    have hattr := hattr i attr hi
    refine Prod.ext ?_ (congrArg (fun c => c.bind Content.value?) hattr)
    refine (View.name?_eq (congrArg (fun c => c.bind Content.localName?) hattr)
      (congrArg (fun c => c.bind Content.pfx?) hattr)).trans ?_
    exact congrArg some (QName.joined_split ..)
  rw [View.nodeRead, hname, hvalue, hattrs,
    show c.finish.view.kind b.nodes.size = .element from Document.kind_of_content? hcontent]
  rfl

/-! ## Trees still to come -/

theorem Keeps.mem_offspring_iff {id : Nat} (h : b.Keeps b') (hid : id < b.nodes.size) :
    id ∈ b'.finish.offspring p ↔ id ∈ b.finish.offspring p := by
  have howned : b'.finish.view.isOwned id = b.finish.view.isOwned id :=
    congrArg NodeKind.isOwned (h.kind hid)
  rw [Document.mem_offspring, Document.mem_offspring, h.parent? hid, howned]

/-- Of the children that there are with one that is added, that one alone is new. -/
theorem Grows.mem_offspring_new (hg : b.Grows b' content) (hb : b.Sound) {p id : Nat} :
    id ∈ b'.finish.offspring p ∧ b.nodes.size ≤ id ↔ p = b.parent ∧ id = b.nodes.size := by
  have hold : b'.finish.offspring p =
      if p = b.parent then b.finish.offspring p ++ [b.nodes.size] else b.finish.offspring p :=
    (hg.attached hb).offspring_eq hg.not_isOwned
  have hlt : ∀ id ∈ b.finish.offspring p, id < b.nodes.size := fun id hid =>
    Document.lt_size_of_parent? (Document.mem_offspring.mp hid).1
  rw [hold]
  split
  · rename_i hp
    rw [List.mem_append, List.mem_singleton]
    constructor
    · rintro ⟨hid | rfl, hle⟩
      · exact absurd (hlt id hid) (Nat.not_lt_of_le hle)
      · exact ⟨hp, rfl⟩
    · rintro ⟨_, rfl⟩
      exact ⟨.inr rfl, Nat.le_refl _⟩
  · rename_i hp
    exact iff_of_false (fun h => Nat.not_lt_of_le h.2 (hlt id h.1)) fun h => hp h.1

/-- The children still to come are the one that is added and those still to come behind it. -/
theorem Grows.mem_offspring_from (hg : b.Grows b' content) (hb : b.Sound) (hkeeps : b'.Keeps c)
    {p id : Nat} :
    id ∈ c.finish.offspring p ∧ b.nodes.size ≤ id ↔
      (p = b.parent ∧ id = b.nodes.size) ∨ (id ∈ c.finish.offspring p ∧ b'.nodes.size ≤ id) := by
  have hsize := hg.size_lt
  by_cases hid : id < b'.nodes.size
  · rw [or_iff_left fun h => Nat.not_lt_of_le h.2 hid, hkeeps.mem_offspring_iff hid]
    exact hg.mem_offspring_new hb
  · have hle := Nat.le_of_not_lt hid
    have hnew : ¬ (p = b.parent ∧ id = b.nodes.size) := by
      rintro ⟨_, rfl⟩
      exact hid hsize
    rw [or_iff_right hnew]
    exact and_congr_right fun _ => iff_of_true (Nat.le_of_lt (Nat.lt_of_lt_of_le hsize hle)) hle

theorem Grows.filter_offspring (hg : b.Grows b' content) (hb : b.Sound) (hkeeps : b'.Keeps c)
    (p : Nat) :
    (c.finish.offspring p).filter (b.nodes.size ≤ ·) =
      (if p = b.parent then [b.nodes.size] else []) ++
        (c.finish.offspring p).filter (b'.nodes.size ≤ ·) := by
  have hsize := hg.size_lt
  refine (Document.ascending_offspring.filter _).ext
    (Ascending.append ?_ (Document.ascending_offspring.filter _) fun x hx y hy => ?_) fun id => ?_
  · split <;> simp
  · have hx : x = b.nodes.size := by
      split at hx <;> simp_all
    have hy : b'.nodes.size ≤ y := of_decide_eq_true (List.mem_filter.mp hy).2
    omega
  · rw [List.mem_append, List.mem_filter, List.mem_filter, decide_eq_true_iff,
      decide_eq_true_iff, hg.mem_offspring_from hb hkeeps]
    refine or_congr_left ?_
    split <;> simp_all

/-- A child that is added is the first one still to come below its parent. -/
theorem Grows.treesFrom_eq (hg : b.Grows b' content) (hb : b.Sound) (hkeeps : b'.Keeps c)
    (p : Nat) :
    c.finish.treesFrom b.nodes.size p =
      (if p = b.parent then [c.finish.tree b.nodes.size] else []) ++
        c.finish.treesFrom b'.nodes.size p := by
  rw [Document.treesFrom, hg.filter_offspring hb hkeeps, List.map_append]
  split <;> rfl

theorem Grows.tree_new (hg : b.Grows b' content) (hb : b.Sound) (hkeeps : b'.Keeps c)
    (hc : c.Sound) :
    c.finish.tree b.nodes.size =
      c.finish.view.nodeRead b.nodes.size (c.finish.treesFrom b'.nodes.size b.nodes.size) := by
  have hne : b.nodes.size ≠ b.parent := Nat.ne_of_gt (hb.openPath.parent_lt hb.wellBuilt)
  rw [hc.wellBuilt.tree_eq, ← hc.wellBuilt.treesFrom_of_le (Nat.le_succ _),
    hg.treesFrom_eq hb hkeeps, if_neg hne, List.nil_append]

/-- The open nodes get the trees of all levels, innermost first, and the document node gets those
of all levels that are left. -/
def Gets (added : NodeId → List Tree) : List NodeId → List Tree → List (List Tree) → Prop
  | [], level, outer => added View.documentNode = level ++ outer.flatten
  | e :: path, level, outer => added e = level ∧ Gets added path (outer.headD []) outer.tail

section
variable {added added' : NodeId → List Tree} {path : List NodeId} {level : List Tree}
  {outer : List (List Tree)}

theorem Gets.congr (h : Gets added' path level outer)
    (hsame : ∀ p ∈ path ++ [View.documentNode], added p = added' p) :
    Gets added path level outer := by
  induction path generalizing level outer with
  | nil => exact (hsame _ (by simp)).trans h
  | cons e path ih =>
      exact ⟨(hsame e (by simp)).trans h.1, ih h.2 fun p hp => hsame p (List.mem_cons_of_mem e hp)⟩

theorem gets_nil (hnil : ∀ p, added p = []) : Gets added path [] [] := by
  induction path with
  | nil => exact hnil _
  | cons e path ih => exact ⟨hnil e, ih⟩

/-- One more tree in front, below the innermost node. -/
theorem Gets.cons {tree : Tree} (h : Gets added' path level outer)
    (hnodup : (path ++ [View.documentNode]).Nodup)
    (hfirst : added (path.headD View.documentNode) =
      tree :: added' (path.headD View.documentNode))
    (hrest : ∀ p ≠ path.headD View.documentNode, added p = added' p) :
    Gets added path (tree :: level) outer := by
  cases path with
  | nil => exact hfirst.trans (congrArg (tree :: ·) h)
  | cons e path =>
      refine ⟨hfirst.trans (congrArg (tree :: ·) h.1), h.2.congr fun p hp => hrest p ?_⟩
      rintro rfl
      exact (List.nodup_cons.mp hnodup).1 hp

end

theorem Sound.nodup_open (hb : b.Sound) : (b.openElements ++ [View.documentNode]).Nodup := by
  cases hopen : b.openElements with
  | nil => simp
  | cons e outer =>
      have hpairwise := (hb.openPath.lineage e outer hopen).pairwise hb.wellBuilt.parent_lt
      exact hpairwise.imp Nat.ne_of_gt

theorem Sound.lt_size_of_open (hb : b.Sound) (hp : p ∈ b.openElements ++ [View.documentNode]) :
    p < b.nodes.size :=
  Document.Attached.lt_size_of_open hb.openPath hb.wellBuilt hp

/-- The trees still to come in a document are those that the remaining events describe: below the
open nodes, level by level, and nowhere else. -/
structure Awaits (b : Builder) (d : Document) (events : List Event) : Prop where
  levels : Gets (d.treesFrom b.nodes.size) b.openElements (Event.levels events).1
    (Event.levels events).2
  elsewhere : ∀ p < b.nodes.size, p ∉ b.openElements ++ [View.documentNode] →
    d.treesFrom b.nodes.size p = []

theorem awaits_nil : b.Awaits b.finish [] := by
  have hnil : ∀ p, b.finish.treesFrom b.nodes.size p = [] := by
    intro p
    rw [Document.treesFrom, List.filter_eq_nil_iff.mpr, List.map_nil]
    intro id hid
    have hlt : id < b.nodes.size := Document.lt_size_of_parent? (Document.mem_offspring.mp hid).1
    simpa using hlt
  exact ⟨gets_nil hnil, fun p _ _ => hnil p⟩

/-! ### One event -/

theorem Awaits.close (h : b.closeElement.Awaits d events) (hb : b.Sound) :
    b.Awaits d (.close :: events) := by
  have hsize : b.closeElement.nodes.size = b.nodes.size :=
    congrArg (fun d : Document => d.nodes.size) b.finish_closeElement
  obtain ⟨hlevels, helsewhere⟩ := h
  rw [hsize, openElements_closeElement] at hlevels helsewhere
  have hnodup := hb.nodup_open
  cases hopen : b.openElements with
  | nil =>
      rw [hopen, List.tail_nil] at hlevels helsewhere
      refine ⟨?_, ?_⟩
      · rw [hopen]
        exact hlevels
      · rw [hopen]
        exact helsewhere
  | cons e outer =>
      rw [hopen] at hlevels helsewhere hnodup
      have he : e < b.nodes.size := hb.lt_size_of_open (by simp [hopen])
      refine ⟨?_, fun p hp hnot => helsewhere p hp fun hmem => hnot ?_⟩
      · rw [hopen]
        exact ⟨helsewhere e he (List.nodup_cons.mp hnodup).1, hlevels⟩
      · rw [hopen]
        exact List.mem_cons_of_mem e hmem

/-- A node that is added with its tree comes first on the level where it is. -/
theorem Awaits.added {tree : Tree} {level : List Tree} {outer : List (List Tree)}
    (hg : b.Grows b' content) (hb : b.Sound) (hkeeps : b'.Keeps c)
    (htree : c.finish.tree b.nodes.size = tree)
    (hlevels : Gets (c.finish.treesFrom b'.nodes.size) b.openElements level outer)
    (helsewhere : ∀ p < b.nodes.size, p ∉ b.openElements ++ [View.documentNode] →
      c.finish.treesFrom b'.nodes.size p = [])
    (hevents : Event.levels events = (tree :: level, outer)) : b.Awaits c.finish events := by
  have hrest : ∀ p ≠ b.parent,
      c.finish.treesFrom b.nodes.size p = c.finish.treesFrom b'.nodes.size p := by
    intro p hp
    rw [hg.treesFrom_eq hb hkeeps, if_neg hp, List.nil_append]
  have hopen : b.parent ∈ b.openElements ++ [View.documentNode] :=
    (hb.openPath.mem_iff hb.wellBuilt).mpr (.inl rfl)
  constructor
  · rw [hevents]
    refine hlevels.cons hb.nodup_open ?_ hrest
    change c.finish.treesFrom b.nodes.size b.parent = _
    rw [hg.treesFrom_eq hb hkeeps, if_pos rfl, htree]
    rfl
  · intro p hp hnot
    rw [hrest p fun heq => hnot (heq ▸ hopen), helsewhere p hp hnot]

theorem Awaits.single {event : Event} {tree : Tree} (h : b'.Awaits c.finish events)
    (hb : b.Sound) (hc : c.Sound) (hg : b.Grows b' content)
    (hopen : b'.openElements = b.openElements) (hkeeps : b'.Keeps c)
    (htree : event.tree? = some tree) (hread : c.finish.view.nodeRead b.nodes.size [] = tree) :
    b.Awaits c.finish (event :: events) := by
  obtain ⟨hlevels, helsewhere⟩ := h
  rw [hopen] at hlevels helsewhere
  have hsize := hg.size_lt
  have hnone : c.finish.treesFrom b'.nodes.size b.nodes.size = [] :=
    helsewhere _ hsize fun hmem => Nat.lt_irrefl _ (hb.lt_size_of_open hmem)
  refine .added hg hb hkeeps ?_ hlevels (fun p hp => helsewhere p (Nat.lt_trans hp hsize))
    (Event.levels_of_tree htree)
  rw [hg.tree_new hb hkeeps hc, hnone, hread]

theorem Awaits.opened (h : (b.openElement name attrs).2.Awaits c.finish events) (hb : b.Sound)
    (hc : c.Sound) (hkeeps : (b.openElement name attrs).2.Keeps c)
    (hfew : attrs.plain.length ≤ wordMax) : b.Awaits c.finish (.start name attrs :: events) := by
  obtain ⟨⟨hchildren, hlevels⟩, helsewhere⟩ := h
  obtain ⟨content, _, hg⟩ := b.grows_openElement name attrs
  have hsize := hg.size_lt
  refine .added hg hb hkeeps ?_ hlevels (fun p hp hnot => ?_) rfl
  · rw [hg.tree_new hb hkeeps hc, hchildren, nodeRead_element rfl hkeeps hfew]
  · refine helsewhere p (Nat.lt_trans hp hsize) fun hmem => ?_
    rcases List.mem_cons.mp hmem with rfl | hmem
    · exact Nat.lt_irrefl _ hp
    · exact hnot hmem

theorem Awaits.leaf {event : Event} {value : String}
    (h : (b.addLeaf content).2.Awaits c.finish events) (hb : b.Sound) (hc : c.Sound)
    (hkeeps : (b.addLeaf content).2.Keeps c) (hcounts : content.counts = (0, 0))
    (helement : content.kind ≠ .element) (howned : content.kind.isOwned = false)
    (hpfx : content.pfx? = none) (hvalue : content.value? = some value)
    (htree : event.tree? = some (.leaf content.kind content.localName? value)) :
    b.Awaits c.finish (event :: events) := by
  have hg := b.grows_addChild content hcounts helement howned
  have hcontent : c.finish.content? b.nodes.size = some content :=
    hkeeps.content? (hg.attached hb).content?_new
  refine h.single hb hc hg rfl hkeeps htree ?_
  rw [Document.nodeRead_plain hcontent hcounts hpfx, hvalue]
  rfl

/-! ### All events -/

/-- No element has more attributes, besides declarations, than words count. -/
def FewAttrs (events : List Event) : Prop :=
  ∀ event ∈ events, ∀ attrs, event.attrs? = some attrs → attrs.plain.length ≤ wordMax

theorem awaits_feedAll (hb : b.Sound) (hfew : FewAttrs events) :
    b.Awaits (b.feedAll events).2.finish events := by
  induction events generalizing b with
  | nil => exact awaits_nil
  | cons event events ih =>
      obtain ⟨hevent, hevents⟩ := List.forall_mem_cons.mp hfew
      have hnext := ih (hb.feed event) hevents
      have hkeeps := (b.feed event).2.keeps_feedAll events
      have hc := (hb.feed event).feedAll events
      cases event with
      | start name attrs => exact hnext.opened hb hc hkeeps (hevent attrs rfl)
      | close => exact hnext.close hb
      | empty name attrs =>
          obtain ⟨content, _, hg⟩ := b.grows_openElement name attrs
          have hclosed : b.Grows (b.feed (.empty name attrs)).2 content :=
            ⟨hg.nodes_eq, hg.rootElement_eq, hg.not_isOwned⟩
          exact hnext.single hb hc hclosed rfl hkeeps rfl
            (nodeRead_element rfl hkeeps (hevent attrs rfl) [])
      | text | cdata | comment | doctype | declaration | instruction =>
          exact hnext.leaf hb hc hkeeps rfl (by simp [Content.kind]) rfl rfl rfl rfl

end Builder

namespace Document

end Document

end TreeQuery
