import Mathlib.Data.List.TakeWhile
import TreeQuery.Proofs.Tree.Naming

/-!
Depths as words. While no more elements are open at a time than a word counts up to, the depth of
the scope is the number of open elements, and a declaration is in force exactly as long as its
element is open. The depth of an element stops at the largest word. The depth of what it owns does
not, and so starts again at zero behind an element of the largest depth; and with one more open
element the scope starts again at zero, and loses all declarations with the next end.
-/
namespace TreeQuery

/-! ## Elements open at a time -/

namespace Event

/-- How many elements are open after an event. -/
def openAfter (n : Nat) : Event → Nat
  | .start _ _ => n + 1
  | .close => n - 1
  | _ => n

/-- Events open no more elements at a time than words count up to, when so many are open before. -/
def Fits : Nat → List Event → Prop
  | _, [] => True
  | n, event :: events =>
    (event.attrs?.isSome → n < Builder.wordMax) ∧ Fits (event.openAfter n) events

end Event

/-! ## Declarations of open elements -/

namespace Scope

open Builder (declared? innerScope)

/-- What the last attribute that declares a prefix declares it as. -/
def lastDeclared? (attrs : WrittenAttrs) (pfx : String) : Option String :=
  attrs.reverse.findSome? fun (name, uri) => if declared? name = some pfx then some uri else none

variable {written : NodeId → WrittenAttrs} {path : List NodeId} {owner : NodeId} {depth : UInt16}
  {pfx : String} {d : Declaration}

theorem mem_map_sites (hlength : path.length ≤ Builder.wordMax) :
    d ∈ (sites written path).map Site.toDeclaration ↔
      ∃ inner e outer, path = inner ++ e :: outer ∧ d.depth.toNat = outer.length + 1 ∧
        isReserved d.pfx = false ∧ ∃ name, (name, d.uri) ∈ written e ∧ Declares d.pfx name := by
  induction path with
  | nil => simp [sites]
  | cons e outer ih =>
      rw [List.length_cons] at hlength
      have hon : d ∈ (sitesOn e (UInt16.ofNat (outer.length + 1)) (written e)).map
            Site.toDeclaration ↔
          d.depth.toNat = outer.length + 1 ∧ isReserved d.pfx = false ∧
            ∃ name, (name, d.uri) ∈ written e ∧ Declares d.pfx name := by
        rw [List.mem_map]
        constructor
        · rintro ⟨s, hs, rfl⟩
          obtain ⟨_, hdepth, hreserved, name, hget, hdeclares⟩ := mem_sitesOn.mp hs
          exact ⟨by rw [hdepth, toNat_depth hlength], hreserved, name, List.mem_of_getElem? hget,
            hdeclares⟩
        · rintro ⟨hdepth, hreserved, name, hmem, hdeclares⟩
          obtain ⟨i, hget⟩ := List.getElem?_of_mem hmem
          refine ⟨⟨d, e, i⟩, mem_sitesOn.mpr ⟨rfl, ?_, hreserved, name, hget, hdeclares⟩, rfl⟩
          rw [← UInt16.toNat_inj, toNat_depth hlength, hdepth]
      rw [sites, List.map_append, List.mem_append, List.map_reverse, List.mem_reverse, hon,
        ih (by omega)]
      constructor
      · rintro (h | ⟨inner, e', outer', rfl, h⟩)
        · exact ⟨[], e, outer, rfl, h⟩
        · exact ⟨e :: inner, e', outer', rfl, h⟩
      · rintro ⟨inner, e', outer', hpath, h⟩
        cases inner with
        | nil =>
            obtain ⟨rfl, rfl⟩ := List.cons.inj hpath
            exact .inl h
        | cons _ inner =>
            obtain ⟨rfl, rfl⟩ := List.cons.inj hpath
            exact .inr ⟨inner, e', outer', rfl, h⟩

theorem find?_filterMap_site (hreserved : isReserved pfx = false)
    (attrs : List ((String × String) × Nat)) :
    ((attrs.filterMap (site? owner depth)).find? (·.pfx == pfx)).map (·.uri) =
      attrs.findSome? fun x => if declared? x.1.1 = some pfx then some x.1.2 else none := by
  induction attrs with
  | nil => rfl
  | cons attr attrs ih =>
      obtain ⟨⟨name, uri⟩, i⟩ := attr
      by_cases hname : declared? name = some pfx
      · have hsite : site? owner depth ((name, uri), i) = some ⟨⟨pfx, uri, depth⟩, owner, i⟩ := by
          simp [site?, hname, hreserved]
        rw [List.filterMap_cons_some hsite, List.find?_cons_of_pos (by simp),
          List.findSome?_cons, if_pos hname]
        rfl
      · rw [List.findSome?_cons, if_neg hname, ← ih]
        cases hsite : site? owner depth ((name, uri), i) with
        | none => rw [List.filterMap_cons_none hsite]
        | some s =>
            have hdeclares := declared?_eq_some_iff.mpr (site?_eq_some_iff.mp hsite).1
            have hne : s.pfx ≠ pfx := fun h => hname (h ▸ hdeclares)
            rw [List.filterMap_cons_some hsite, List.find?_cons_of_neg (by simpa using hne)]

theorem find?_sitesOn (hreserved : isReserved pfx = false) (attrs : WrittenAttrs) :
    ((sitesOn owner depth attrs).reverse.find? (·.pfx == pfx)).map (·.uri) =
      lastDeclared? attrs pfx := by
  have hattrs : attrs.reverse = attrs.zipIdx.reverse.map Prod.fst := by
    rw [List.map_reverse, List.zipIdx_map_fst]
  rw [sitesOn, ← List.filterMap_reverse, find?_filterMap_site hreserved, lastDeclared?, hattrs,
    List.findSome?_map]
  rfl

/-- Inside elements a prefix stands for what the innermost one that declares it says last. -/
theorem resolve?_within_eq (hreserved : isReserved pfx = false) :
    (within (path.map written)).resolve? pfx =
      (path.findSome? fun e => lastDeclared? (written e) pfx).filter (· != "") := by
  have hsites : ((sites written path).find? (·.pfx == pfx)).map (·.uri) =
      path.findSome? fun e => lastDeclared? (written e) pfx := by
    induction path with
    | nil => rfl
    | cons e outer ih =>
        rw [sites, List.find?_append, List.findSome?_cons, ← find?_sitesOn hreserved, ← ih]
        cases (sitesOn e (UInt16.ofNat (outer.length + 1)) (written e)).reverse.find?
          (·.pfx == pfx) <;> rfl
  rw [resolve?_within hreserved, hsites]

/-- Leaving an element at depth zero takes all declarations back. -/
theorem pop_of_depth_eq_zero {s : Scope} (h : s.depth = 0) :
    s.pop = { declarations := [], depth := 0 } := by
  have hall : s.declarations.dropWhile (fun d => decide (s.depth ≤ d.depth)) = [] := by
    rw [List.dropWhile_eq_nil_iff, h]
    exact fun d _ => decide_eq_true (Nat.zero_le d.depth.toNat)
  rw [pop, if_pos h, hall]

end Scope

namespace Builder

open Scope (within isReserved)

variable {b b' : Builder} {written : NodeId → WrittenAttrs} {event : Event}

theorem length_openElements_feed :
    (b.feed event).2.openElements.length = event.openAfter b.openElements.length := by
  cases event with
  | close => exact (congrArg List.length b.openElements_closeElement).trans List.length_tail
  | start | empty | text | cdata | comment | doctype | declaration | instruction => rfl

/-- Between two events: the scope is that of the open elements, and a word can count them. -/
structure Scoped (b : Builder) (written : NodeId → WrittenAttrs) : Prop where
  scope_eq : b.scope = within (b.openElements.map written)
  length_le : b.openElements.length ≤ wordMax

theorem scoped_initial : initial.Scoped written := ⟨rfl, Nat.zero_le _⟩

theorem Scoped.feed (hb : b.Scoped written)
    (hwrites : ∀ attrs, event.attrs? = some attrs → written b.nodes.size = attrs)
    (hfits : event.attrs?.isSome → b.openElements.length < wordMax) :
    (b.feed event).2.Scoped written := by
  have hinner : ∀ {attrs}, event.attrs? = some attrs →
      innerScope b.scope attrs = within ((b.nodes.size :: b.openElements).map written) := by
    intro attrs hattrs
    rw [List.map_cons, within, hwrites attrs hattrs, hb.scope_eq]
  cases event with
  | start name attrs => exact ⟨hinner rfl, hfits rfl⟩
  | empty name attrs =>
      refine ⟨?_, hb.length_le⟩
      change (innerScope b.scope attrs).pop = within (b.openElements.map written)
      rw [hinner rfl, Scope.pop_within (hfits rfl)]
  | close =>
      change b.closeElement.Scoped written
      cases hopen : b.openElements with
      | nil =>
          rw [closeElement, hopen]
          exact hb
      | cons e outer =>
          have hlength := hb.length_le
          rw [hopen, List.length_cons] at hlength
          rw [closeElement, hopen]
          refine ⟨?_, Nat.le_of_lt hlength⟩
          change b.scope.pop = within (outer.map written)
          rw [hb.scope_eq, hopen, Scope.pop_within hlength]
  | text | cdata | comment | doctype | declaration | instruction => exact ⟨hb.1, hb.2⟩

theorem Scoped.feedAll {events : List Event} (hb : b.Scoped written)
    (hwrites : Writes written b events) (hfits : Event.Fits b.openElements.length events) :
    (b.feedAll events).2.Scoped written := by
  induction events generalizing b with
  | nil => exact hb
  | cons event events ih =>
      have hrest : Event.Fits (b.feed event).2.openElements.length events :=
        length_openElements_feed ▸ hfits.2
      exact ih (hb.feed hwrites.1 hfits.1) hwrites.2 hrest

/-! ## Depths of nodes -/

/-- Between two events: each node stands one deeper than its parent. The depth of a child stops at
the largest word, that of a binding or attribute starts again at zero. No element counts further
than a word does. -/
structure Layered (b : Builder) : Prop where
  top : ∀ (id : Nat) n, b.nodes[id]? = some n → n.parent = none → n.depth = 0
  below : ∀ (id p : Nat) n o, b.nodes[id]? = some n → n.parent = some p → b.nodes[p]? = some o →
    n.depth = if n.content.kind.isOwned then o.depth + 1
      else UInt16.ofNat (min (o.depth.toNat + 1) wordMax)
  counts_le : ∀ (id : Nat) n, b.nodes[id]? = some n →
    n.content.counts.1 ≤ wordMax ∧ n.content.counts.2 ≤ wordMax

theorem layered_initial : initial.Layered := by
  have hnode : ∀ {id : Nat} {n}, initial.nodes[id]? = some n →
      n = { content := .document, parent := none, depth := 0 } := by
    intro id n hn
    rcases node?_initial id with h | h
    · cases (show initial.nodes[id]? = none from h).symm.trans hn
    · exact Option.some.inj (hn.symm.trans h)
  refine ⟨fun id n hn _ => ?_, fun id p n o hn hp => ?_, fun id n hn => ?_⟩
  · rw [hnode hn]
  · rw [hnode hn] at hp
    cases hp
  · rw [hnode hn]
    decide

section
variable {content : Content} {depth : UInt16} {owned : List Content} {id : Nat} {n : Node}

/-- The nodes after one more child: those before with new links, the child, and what it owns. -/
theorem cases_grown (hn : (b.grown content depth owned)[id]? = some n) :
    (∃ m, b.nodes[id]? = some m ∧ n = b.relink id m) ∨
      (id = b.nodes.size ∧ n =
        { content, parent := some b.parent, prevSibling := b.lastOfParent, depth := b.depth }) ∨
      ∃ c ∈ owned, n = { content := c, parent := some b.nodes.size, depth } := by
  rw [getElem?_grown] at hn
  split at hn
  · obtain ⟨m, hm, rfl⟩ := Option.map_eq_some_iff.mp hn
    exact .inl ⟨m, hm, rfl⟩
  · split at hn
    · rename_i hid
      exact .inr (.inl ⟨hid, (Option.some.inj hn).symm⟩)
    · obtain ⟨c, hc, rfl⟩ := Option.map_eq_some_iff.mp hn
      exact .inr (.inr ⟨c, List.mem_of_getElem? hc, rfl⟩)

theorem old_of_grown (hid : id < b.nodes.size) (hn : (b.grown content depth owned)[id]? = some n) :
    ∃ m, b.nodes[id]? = some m ∧ n = b.relink id m := by
  rw [getElem?_grown, if_pos hid] at hn
  obtain ⟨m, hm, rfl⟩ := Option.map_eq_some_iff.mp hn
  exact ⟨m, hm, rfl⟩

theorem Layered.grown (h : b.Layered) (hb : b.Sound)
    (hnodes : b'.nodes = b.grown content (b.depth + 1) owned)
    (hcontent : content.kind.isOwned = false)
    (hcounts : content.counts.1 ≤ wordMax ∧ content.counts.2 ≤ wordMax)
    (howned : ∀ c ∈ owned, c.kind.isOwned = true) : b'.Layered := by
  refine ⟨fun id n hn hp => ?_, fun id p n o hn hp ho => ?_, fun id n hn => ?_⟩
  · rw [hnodes] at hn
    rcases cases_grown hn with ⟨m, hm, rfl⟩ | ⟨rfl, rfl⟩ | ⟨c, hc, rfl⟩
    · exact h.top id m hm hp
    · cases hp
    · cases hp
  · rw [hnodes] at hn ho
    -- The parent of an old node and of the child is an old node, that of an owned node the child.
    rcases cases_grown hn with ⟨m, hm, rfl⟩ | ⟨rfl, rfl⟩ | ⟨c, hc, rfl⟩
    · have hup : b.finish.view.parent? id = some p :=
        (congrArg (fun n => n.bind Node.parent) hm).trans hp
      have hlt := hb.wellBuilt.parent_lt id p hup
      have hid : id < b.nodes.size := (Array.getElem?_eq_some_iff.mp hm).1
      obtain ⟨o, hold, rfl⟩ := old_of_grown (Nat.lt_trans hlt hid) ho
      exact h.below id p m o hm hp hold
    · obtain rfl := Option.some.inj hp
      have hlt : b.parent < b.nodes.size := hb.openPath.parent_lt hb.wellBuilt
      obtain ⟨o, hold, rfl⟩ := old_of_grown hlt ho
      simp only [hcontent, Builder.depth, hold]
      rfl
    · obtain rfl := Option.some.inj hp
      rw [getElem?_grown, if_neg (Nat.lt_irrefl _), if_pos rfl] at ho
      obtain rfl := Option.some.inj ho
      simp only [howned c hc, if_true]
  · rw [hnodes] at hn
    rcases cases_grown hn with ⟨m, hm, rfl⟩ | ⟨rfl, rfl⟩ | ⟨c, hc, rfl⟩
    · exact h.counts_le id m hm
    · exact hcounts
    · have hc := howned c hc
      cases c with
      | attr | binding => exact ⟨Nat.zero_le _, Nat.zero_le _⟩
      | document | element | text | cdata | comment | instruction | doctype | declaration =>
          cases hc

end

theorem Layered.opened (h : b.Layered) (hb : b.Sound) (name : String) (attrs : WrittenAttrs) :
    (b.openElement name attrs).2.Layered := by
  refine h.grown hb (b.openElement_nodes name attrs) rfl ?_ fun c hc => ?_
  · exact ⟨List.length_take_le _ _, List.length_take_le _ _⟩
  · rcases List.mem_append.mp hc with hc | hc <;> obtain ⟨_, _, rfl⟩ := List.mem_map.mp hc <;> rfl

theorem Layered.feed (h : b.Layered) (hb : b.Sound) (event : Event) :
    (b.feed event).2.Layered := by
  have hclosed : ∀ {b : Builder}, b.Layered → b.closeElement.Layered := fun {b} h => by
    have hnodes : b.closeElement.nodes = b.nodes := congrArg Document.nodes b.finish_closeElement
    exact ⟨hnodes ▸ h.top, hnodes ▸ h.below, hnodes ▸ h.counts_le⟩
  cases event with
  | start name attrs => exact h.opened hb name attrs
  | close => exact hclosed h
  | empty name attrs => exact hclosed (h.opened hb name attrs)
  | text | cdata | comment | doctype | declaration | instruction =>
      exact h.grown hb (show _ = b.grown _ (b.depth + 1) [] from rfl) rfl
        ⟨Nat.zero_le _, Nat.zero_le _⟩ (by simp)

theorem Layered.feedAll (h : b.Layered) (hb : b.Sound) (events : List Event) :
    (b.feedAll events).2.Layered := by
  induction events generalizing b with
  | nil => exact h
  | cons event events ih => exact ih (h.feed hb event) (hb.feed event)

section
variable {id p : Nat} {n o : Node} {above : List NodeId}

theorem kind_finish (hn : b.nodes[id]? = some n) : b.finish.kind id = n.content.kind :=
  Document.kind_of_content? (congrArg (Option.map Node.content) hn)

theorem parent?_finish (hn : b.nodes[id]? = some n) : b.finish.view.parent? id = n.parent :=
  congrArg (fun n => n.bind Node.parent) hn

/-- What has children belongs to no element itself. -/
theorem Sound.not_isOwned (hb : b.Sound) (hn : b.nodes[id]? = some n)
    (h : id = View.documentNode ∨ b.finish.kind id = .element) :
    n.content.kind.isOwned = false := by
  rw [← kind_finish hn]
  rcases h with rfl | helement
  · rw [Document.kind_of_content? hb.wellBuilt.content?_documentNode]
    rfl
  · rw [helement]
    rfl

/-- The depth of a node that is no binding or attribute is the number of nodes above it, up to the
largest word. -/
theorem Layered.toNat_depth (h : b.Layered) (hb : b.Sound) (hn : b.nodes[id]? = some n)
    (howned : n.content.kind.isOwned = false) (hl : b.finish.view.Lineage id above) :
    n.depth.toNat = min above.length wordMax := by
  induction hl generalizing n with
  | @top id hp =>
      rw [h.top id n hn ((parent?_finish hn).symm.trans hp)]
      rfl
  | @up id p above hp _ ih =>
      have hid : id < b.nodes.size := (Array.getElem?_eq_some_iff.mp hn).1
      have hlt := Nat.lt_trans (hb.wellBuilt.parent_lt id p hp) hid
      have ho : b.nodes[p]? = some b.nodes[p] := Array.getElem?_eq_getElem hlt
      rw [h.below id p n _ hn ((parent?_finish hn).symm.trans hp) ho, howned,
        if_neg Bool.false_ne_true, ih ho (hb.not_isOwned ho (hb.wellBuilt.kind_parent id p hp)),
        Scope.toNat_depth (Nat.min_le_right _ _), List.length_cons]
      simp only [wordMax]
      omega

theorem Layered.toNat_next (h : b.Layered) (hb : b.Sound) :
    b.depth.toNat = min (b.openElements.length + 1) wordMax := by
  have hlt : b.parent < b.nodes.size := hb.openPath.parent_lt hb.wellBuilt
  have ho : b.nodes[b.parent]? = some b.nodes[b.parent] := Array.getElem?_eq_getElem hlt
  obtain ⟨above, hl, hlength⟩ : ∃ above, b.finish.view.Lineage b.parent above ∧
      above.length = b.openElements.length := by
    rw [parent]
    cases hopen : b.openElements with
    | nil => exact ⟨[], .top hb.wellBuilt.parent?_documentNode, rfl⟩
    | cons e outer => exact ⟨_, hb.openPath.lineage e outer hopen, by simp⟩
  have hdepth := h.toNat_depth hb ho (hb.not_isOwned ho hb.openPath.kind_parent) hl
  rw [depth, ho, Scope.toNat_depth (Nat.min_le_right _ _), Option.elim_some, hdepth, hlength]
  simp only [wordMax]
  omega

end

/-! ## Words that count -/

/-- Between two events: words count what they stand for, and declarations are in force on open
elements only. The attributes are those that are written on the elements. -/
structure Counted (b : Builder) (written : NodeId → WrittenAttrs) : Prop where
  scope_depth : b.scope.depth.toNat = b.openElements.length
  /-- The depth of a declaration tells its element: the number of open elements up to it. -/
  declared_iff : ∀ d, d ∈ b.scope.declarations ↔ d ∈ Scope.initial.declarations ∨
    ∃ inner e outer, b.openElements = inner ++ e :: outer ∧ d.depth.toNat = outer.length + 1 ∧
      isReserved d.pfx = false ∧ ∃ name, (name, d.uri) ∈ written e ∧ Declares d.pfx name
  /-- A prefix stands for what the innermost open element that declares it says. -/
  resolve?_eq : ∀ pfx, isReserved pfx = false → b.scope.resolve? pfx =
    (b.openElements.findSome? fun e => Scope.lastDeclared? (written e) pfx).filter (· != "")
  depth_eq : ∀ (id : Nat) n, b.nodes[id]? = some n → n.content.kind.isOwned = false →
    n.depth.toNat = min (b.finish.view.ancestors id).length wordMax
  owned_depth : ∀ (id owner : Nat) n o, b.nodes[id]? = some n → n.content.kind.isOwned = true →
    n.parent = some owner → b.nodes[owner]? = some o → o.depth.toNat < wordMax →
      n.depth.toNat = o.depth.toNat + 1
  counts_le : ∀ (id : Nat) n, b.nodes[id]? = some n →
    n.content.counts.1 ≤ wordMax ∧ n.content.counts.2 ≤ wordMax

/-- After any events that open no more elements at a time than words count up to, the depth of the
scope is the number of open elements, declarations are in force as long as their elements are open,
and what an element owns is one deeper than the element, unless that has the largest depth. -/
theorem counted_feedAll (events : List Event) (hfits : Event.Fits 0 events) :
    (initial.feedAll events).2.Counted (Document.written events) := by
  have hsound := sound_initial.feedAll events
  have hlayered := layered_initial.feedAll sound_initial events
  have hscoped : (initial.feedAll events).2.Scoped (Document.written events) :=
    scoped_initial.feedAll (writes_writtenOn initial events) hfits
  refine ⟨?_, fun d => ?_, fun pfx hreserved => ?_, fun id n hn howned => ?_,
    fun id owner n o hn howned hp ho hlt => ?_, hlayered.counts_le⟩
  · rw [hscoped.scope_eq, Scope.depth_within, List.length_map,
      Scope.toNat_depth hscoped.length_le]
  · rw [hscoped.scope_eq, Scope.declarations_within, List.mem_append, or_comm,
      Scope.mem_map_sites hscoped.length_le]
  · rw [hscoped.scope_eq, Scope.resolve?_within_eq hreserved]
  · have hid := (Array.getElem?_eq_some_iff.mp hn).1
    exact hlayered.toNat_depth hsound hn howned (hsound.wellBuilt.lineage_ancestors hid)
  · rw [hlayered.below id owner n o hn hp ho, if_pos howned, UInt16.toNat_add]
    exact Nat.mod_eq_of_lt (Nat.succ_lt_succ hlt)

theorem counted_feedAll_shadowed :
    let events := [.start "a" [("xmlns:x", "u"), ("k", "1")], .start "x:b" [("xmlns:x", "w")],
      .text "t", .close]
    let b := (initial.feedAll events).2
    Event.Fits 0 events ∧ b.Counted (Document.written events) ∧ b.openElements = [1] ∧
      b.scope.resolve? "x" = some "u" := by
  intro events b
  have hfits : Event.Fits 0 events := by simp [events, Event.Fits, Event.openAfter, wordMax]
  have hcounted := counted_feedAll events hfits
  have hresolved := hcounted.resolve?_eq "x" rfl
  exact ⟨hfits, hcounted, by decide +kernel, hresolved.trans (by decide +kernel)⟩

/-! ## Too many open elements -/

theorem feedAll_cons (b : Builder) (event : Event) (events : List Event) :
    (b.feedAll (event :: events)).2 = ((b.feed event).2.feedAll events).2 := rfl

theorem feedAll_starts (b : Builder) (name : String) (n : Nat) :
    let b' := (b.feedAll (List.replicate n (.start name []))).2
    b'.scope = { b.scope with depth := b.scope.depth + UInt16.ofNat n } ∧
      b'.openElements.length = b.openElements.length + n ∧
        ∀ e ∈ b.openElements, e ∈ b'.openElements := by
  induction n generalizing b with
  | zero => exact ⟨by simp [feedAll], rfl, fun e he => he⟩
  | succ n ih =>
      obtain ⟨hscope, hlength, hopen⟩ := ih (b.feed (.start name [])).2
      refine ⟨hscope.trans ?_, hlength.trans ?_, fun e he => hopen e (List.mem_cons_of_mem _ he)⟩
      · have hpush : (b.feed (.start name [])).2.scope = b.scope.push := rfl
        rw [hpush, Scope.push, UInt16.add_assoc, Nat.add_comm n 1, UInt16.ofNat_add]
        rfl
      · have hcons : (b.feed (.start name [])).2.openElements.length = b.openElements.length + 1 :=
          rfl
        omega

section
variable {name : String} {declarations : List Declaration}

/-- With the largest number of elements open, one more takes the scope back to depth zero. The
element keeps the largest depth, and what it owns has depth zero. -/
theorem start_of_full (hb : b.Sound) (hlayered : b.Layered)
    (hscope : b.scope = { declarations, depth := 65535 })
    (hlength : b.openElements.length = wordMax) :
    (b.feed (.start name [])).2.scope = { declarations, depth := 0 } ∧
      ((b.feed (.start name [])).2.nodes[b.nodes.size]?).map (·.depth) = some 65535 ∧
      (b.feed (.start name [])).2.nodes[b.nodes.size + 1]? =
        ((ownedContents { declarations, depth := 0 } [])[0]?).map fun c =>
          { content := c, parent := some b.nodes.size, depth := 0 } := by
  have hpush : innerScope b.scope [] = { declarations, depth := 0 } := by
    have hzero : (65535 : UInt16) + 1 = 0 := by decide
    rw [hscope, ← hzero]
    rfl
  have hdepth : b.depth = 65535 := by
    rw [← UInt16.toNat_inj, hlayered.toNat_next hb, hlength]
    rfl
  have hnodes : (b.feed (.start name [])).2.nodes = _ := b.openElement_nodes name []
  refine ⟨hpush, ?_, ?_⟩
  · rw [hnodes, getElem?_grown, if_neg (Nat.lt_irrefl _), if_pos rfl, Option.map_some, hdepth]
  · rw [hnodes, getElem?_grown, if_neg (by omega), if_neg (by omega), Nat.sub_self, hpush, hdepth]
    rfl

/-- The end of an element at depth zero of the scope takes back all declarations. -/
theorem close_of_depth_eq_zero {e : NodeId} {outer : List NodeId}
    (hopen : b.openElements = e :: outer) (hscope : b.scope.depth = 0) :
    (b.feed .close).2.scope = { declarations := [], depth := 0 } ∧
      (b.feed .close).2.openElements = outer := by
  change b.closeElement.scope = _ ∧ b.closeElement.openElements = outer
  rw [closeElement, hopen]
  exact ⟨Scope.pop_of_depth_eq_zero hscope, rfl⟩

end

/-- With 65535 elements open, one more takes the scope back to depth zero, and the depth of its
binding with it, although the element keeps the largest depth. The next end then takes back what
the outermost element declares, which is still open. -/
theorem counted_feedAll_fails :
    let b := (initial.feedAll
      (.start "r" [("xmlns:x", "urn:x")] :: List.replicate 65534 (.start "a" []))).2
    let inner := (b.feed (.start "a" [])).2
    let left := (inner.feed .close).2
    (inner.openElements.length = 65536 ∧ inner.scope.depth = 0) ∧
      (inner.nodes[b.nodes.size + 1]? =
          some { content := .binding "x" "urn:x", parent := some b.nodes.size, depth := 0 } ∧
        (inner.nodes[b.nodes.size]?).map (·.depth) = some 65535) ∧
      (1 ∈ left.openElements ∧ inner.scope.resolve? "x" = some "urn:x" ∧
        left.scope.resolve? "x" = none) := by
  have hfirst : (initial.feed (.start "r" [("xmlns:x", "urn:x")])).2.scope =
      ⟨⟨"x", "urn:x", 1⟩ :: Scope.initial.declarations, 1⟩ := by
    have hdeclared : declared? "xmlns:x" = some "x" := by decide +kernel
    change innerScope .initial [("xmlns:x", "urn:x")] = _
    simp [innerScope, hdeclared, Scope.declare, Scope.push, Scope.initial, isReserved]
  have hroot : (initial.feed (.start "r" [("xmlns:x", "urn:x")])).2.openElements = [1] := rfl
  have hbinding : (ownedContents ⟨⟨"x", "urn:x", 1⟩ :: Scope.initial.declarations, 0⟩ [])[0]? =
      some (.binding "x" "urn:x") := by decide +kernel
  have hresolved : Scope.resolve? ⟨⟨"x", "urn:x", 1⟩ :: Scope.initial.declarations, 0⟩ "x" =
      some "urn:x" := by decide +kernel
  obtain ⟨hscope, hlength, hopen⟩ :=
    feedAll_starts (initial.feed (.start "r" [("xmlns:x", "urn:x")])).2 "a" 65534
  rw [hroot, List.length_singleton, ← feedAll_cons] at hlength
  rw [hroot, ← feedAll_cons] at hopen
  rw [hfirst, ← feedAll_cons] at hscope
  have hsound := sound_initial.feedAll
    (.start "r" [("xmlns:x", "urn:x")] :: List.replicate 65534 (.start "a" []))
  have hlayered := layered_initial.feedAll sound_initial
    (.start "r" [("xmlns:x", "urn:x")] :: List.replicate 65534 (.start "a" []))
  -- From here on the builder is any one with these properties: it is too large to be computed.
  generalize (initial.feedAll
    (.start "r" [("xmlns:x", "urn:x")] :: List.replicate 65534 (.start "a" []))).2 = full at *
  intro b inner left
  obtain ⟨hinner, hdepth, howned⟩ := @start_of_full b "a" _ hsound hlayered hscope hlength
  have hopened : inner.openElements = b.nodes.size :: b.openElements := rfl
  obtain ⟨hleft, houter⟩ := close_of_depth_eq_zero hopened (congrArg Scope.depth hinner)
  refine ⟨⟨?_, congrArg Scope.depth hinner⟩, ⟨?_, hdepth⟩, ?_, ?_, ?_⟩
  · rw [hopened, List.length_cons, hlength]
  · rw [howned, hbinding, Option.map_some]
  · rw [houter]
    exact hopen 1 (by simp)
  · rw [hinner, hresolved]
  · rw [hleft]
    rfl

end Builder

end TreeQuery
