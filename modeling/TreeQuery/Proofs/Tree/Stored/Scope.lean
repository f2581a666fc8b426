import Mathlib.Data.List.Find
import TreeQuery.Proofs.Tree.Pool
import TreeQuery.Tree.Stored

/-!
Scopes that keep numbers. Where a pool knows all numbers, more strings in it change nothing that is
read for them; and while different numbers have different strings, a scope over numbers resolves
and lists what the scope over strings does that is read of it.
-/
namespace TreeQuery.Stored

attribute [local irreducible] StringPool.intern

variable {pool next : StringPool}

/-! ## Numbers that a pool knows -/

def Name.ids (name : Name) : List UInt32 := [name.pfx, name.localPart, name.uri]

namespace Content

/-- The numbers in a content. -/
def ids : Content → List UInt32
  | document => []
  | element name _ _ => name.ids
  | attr name value => value :: name.ids
  | binding pfx uri => [pfx, uri]
  | instruction target value => [target, value]
  | text value | cdata value | comment value | doctype value | declaration value => [value]

def KnownTo (content : Content) (pool : StringPool) : Prop :=
  ∀ id ∈ content.ids, id.toNat < pool.size

variable {content : Content}

theorem KnownTo.grows (h : content.KnownTo pool) (hg : pool.Grows next) : content.KnownTo next :=
  fun id hid => hg.lt (h id hid)

theorem KnownTo.read_eq (h : content.KnownTo pool) (hg : pool.Grows next) :
    content.read next = content.read pool := by
  have hget : ∀ id ∈ content.ids, next.get id = pool.get id := fun id hid => hg.get_eq id (h id hid)
  cases content <;> simp_all [read, Name.read, ids, Name.ids]

end Content

/-! ## Scopes -/

def Declaration.read (pool : StringPool) (d : Declaration) : TreeQuery.Declaration :=
  ⟨pool.get d.pfx, pool.get d.uri, d.depth⟩

namespace Scope

/-- The scope with strings in place of their numbers. -/
def read (pool : StringPool) (s : Scope) : TreeQuery.Scope :=
  ⟨s.declarations.map (Declaration.read pool), s.depth⟩

structure KnownTo (s : Scope) (pool : StringPool) : Prop where
  declarations : ∀ d ∈ s.declarations, d.pfx.toNat < pool.size ∧ d.uri.toNat < pool.size
  xml : s.xml.toNat < pool.size
  xmlns : s.xmlns.toNat < pool.size

/-- Numbers of the pool tell strings apart, and the reserved prefixes have the numbers that the
scope takes for them. -/
structure Faithful (s : Scope) (pool : StringPool) : Prop where
  whole : pool.Whole
  xml : pool.get s.xml = "xml"
  xmlns : pool.get s.xmlns = "xmlns"

variable {s : Scope} {pfx uri : UInt32}

namespace KnownTo

theorem grows (h : s.KnownTo pool) (hg : pool.Grows next) : s.KnownTo next :=
  ⟨fun d hd => (h.declarations d hd).imp hg.lt hg.lt, hg.lt h.xml, hg.lt h.xmlns⟩

theorem read_eq (h : s.KnownTo pool) (hg : pool.Grows next) : s.read next = s.read pool := by
  rw [read, read]
  congr 1
  refine List.map_congr_left fun d hd => ?_
  obtain ⟨hpfx, huri⟩ := h.declarations d hd
  rw [Declaration.read, Declaration.read, hg.get_eq _ hpfx, hg.get_eq _ huri]

theorem push (h : s.KnownTo pool) : s.push.KnownTo pool := ⟨h.declarations, h.xml, h.xmlns⟩

theorem pop (h : s.KnownTo pool) : s.pop.KnownTo pool :=
  ⟨fun d hd => h.declarations d ((List.dropWhile_sublist _).subset hd), h.xml, h.xmlns⟩

theorem declare (h : s.KnownTo pool) (hpfx : pfx.toNat < pool.size) (huri : uri.toNat < pool.size) :
    (s.declare pfx uri).KnownTo pool := by
  rw [Scope.declare]
  split
  · exact h
  · exact ⟨List.forall_mem_cons.mpr ⟨⟨hpfx, huri⟩, h.declarations⟩, h.xml, h.xmlns⟩

theorem resolve?_lt (h : s.KnownTo pool) (huri : s.resolve? pfx = some uri) :
    uri.toNat < pool.size := by
  obtain ⟨hfound, -⟩ := Option.filter_eq_some_iff.mp huri
  obtain ⟨d, hd, rfl⟩ := Option.map_eq_some_iff.mp hfound
  exact (h.declarations d (List.mem_of_find?_eq_some hd)).2

theorem resolve_lt (h : s.KnownTo pool) (pfx : UInt32) :
    ((s.resolve? pfx).getD 0).toNat < pool.size := by
  cases huri : s.resolve? pfx with
  | none => exact Nat.zero_lt_of_lt h.xml
  | some uri => exact h.resolve?_lt huri

end KnownTo

theorem effective_sublist (later : List UInt32) (ds : List Declaration) :
    (effective later ds).Sublist ds := by
  induction ds generalizing later with
  | nil => exact .slnil
  | cons d ds ih =>
      rw [effective]
      split
      · exact (ih later).cons d
      · exact (ih _).cons_cons d

theorem mem_bindings {entry : UInt32 × UInt32} (h : entry ∈ s.bindings) :
    ∃ d ∈ s.declarations, entry = (d.pfx, d.uri) := by
  obtain ⟨d, hd, rfl⟩ := List.mem_map.mp h
  have heffective := (List.mem_filter.mp (List.mem_reverse.mp hd)).1
  exact ⟨d, (effective_sublist _ _).subset heffective, rfl⟩

/-! ### Numbers as good as strings -/

theorem read_pop (s : Scope) : s.pop.read pool = (s.read pool).pop := by
  rw [TreeQuery.Scope.pop, read, read, List.dropWhile_map]
  rfl

theorem effective_read (h : pool.Whole) {later : List UInt32} {ds : List Declaration}
    (hlater : ∀ id ∈ later, id.toNat < pool.size) (hds : ∀ d ∈ ds, d.pfx.toNat < pool.size) :
    TreeQuery.Scope.effective (later.map pool.get) (ds.map (Declaration.read pool)) =
      (effective later ds).map (Declaration.read pool) := by
  induction ds generalizing later with
  | nil => rfl
  | cons d ds ih =>
      obtain ⟨hd, hds⟩ := List.forall_mem_cons.mp hds
      have hcontains : (later.map pool.get).contains (pool.get d.pfx) = later.contains d.pfx := by
        rw [Bool.eq_iff_iff, List.contains_iff_mem, List.contains_iff_mem, List.mem_map]
        constructor
        · rintro ⟨id, hid, heq⟩
          exact h.get_inj (hlater id hid) hd heq ▸ hid
        · exact fun hmem => ⟨_, hmem, rfl⟩
      rw [List.map_cons, TreeQuery.Scope.effective, effective, Declaration.read, hcontains]
      split
      · exact ih hlater hds
      · exact congrArg _ (ih (List.forall_mem_cons.mpr ⟨hd, hlater⟩) hds)

namespace Faithful

variable (h : s.Faithful pool) (hk : s.KnownTo pool)

theorem grows (hf : s.Faithful pool) (hs : s.KnownTo pool) (hg : pool.Grows next)
    (hroom : next.byteSize < UInt32.size) : s.Faithful next :=
  ⟨hg.whole hf.whole hroom, (hg.get_eq _ hs.xml).trans hf.xml,
    (hg.get_eq _ hs.xmlns).trans hf.xmlns⟩

include h hk

theorem isReserved_get (hpfx : pfx.toNat < pool.size) :
    TreeQuery.Scope.isReserved (pool.get pfx) = s.isReserved pfx := by
  rw [TreeQuery.Scope.isReserved, isReserved, ← h.xml, ← h.xmlns, Bool.eq_iff_iff]
  simp only [Bool.or_eq_true, beq_iff_eq, h.whole.get_eq_iff hpfx hk.xml,
    h.whole.get_eq_iff hpfx hk.xmlns]

theorem read_declare (hpfx : pfx.toNat < pool.size) :
    (s.declare pfx uri).read pool = (s.read pool).declare (pool.get pfx) (pool.get uri) := by
  rw [declare, TreeQuery.Scope.declare, h.isReserved_get hk hpfx]
  split <;> rfl

omit hk in
theorem declare (pfx uri : UInt32) : (s.declare pfx uri).Faithful pool := by
  rw [Scope.declare]
  split
  · exact h
  · exact ⟨h.whole, h.xml, h.xmlns⟩

theorem resolve?_read (hpfx : pfx.toNat < pool.size) :
    (s.read pool).resolve? (pool.get pfx) = (s.resolve? pfx).map pool.get := by
  have hfind : (s.read pool).declarations.find? (·.pfx == pool.get pfx) =
      (s.declarations.find? (·.pfx == pfx)).map (Declaration.read pool) := by
    rw [read, List.find?_map]
    refine congrArg _ (List.find?_congr fun d hd => ?_)
    rw [Bool.eq_iff_iff, beq_iff_eq]
    exact beq_iff_eq.trans (h.whole.get_eq_iff (hk.declarations d hd).1 hpfx)
  rw [TreeQuery.Scope.resolve?, resolve?, hfind]
  cases hd : s.declarations.find? (·.pfx == pfx) with
  | none => rfl
  | some d =>
      have huri := (hk.declarations d (List.mem_of_find?_eq_some hd)).2
      by_cases hempty : d.uri = 0
      · simp [Declaration.read, Option.filter, hempty, h.whole.get_zero]
      · simp [Declaration.read, Option.filter, hempty, h.whole.get_eq_empty_iff huri]

theorem resolve_read (hpfx : pfx.toNat < pool.size) :
    ((s.read pool).resolve? (pool.get pfx)).getD "" = pool.get ((s.resolve? pfx).getD 0) := by
  rw [h.resolve?_read hk hpfx]
  cases s.resolve? pfx with
  | none => exact h.whole.get_zero.symm
  | some uri => rfl

theorem bindings_read : (s.read pool).bindings =
    s.bindings.map fun entry => (pool.get entry.1, pool.get entry.2) := by
  have heffective := effective_read h.whole (List.forall_mem_nil _) fun d hd =>
    (hk.declarations d hd).1
  have hfilter : (effective [] s.declarations).filter
      ((fun d : TreeQuery.Declaration => d.uri != "" && !TreeQuery.Scope.isReserved d.pfx) ∘
        Declaration.read pool) =
      (effective [] s.declarations).filter fun d => d.uri != 0 && !s.isReserved d.pfx := by
    refine List.filter_congr fun d hd => ?_
    obtain ⟨hpfx, huri⟩ := hk.declarations d ((effective_sublist _ _).subset hd)
    have hzero : (pool.get d.uri != "") = (d.uri != 0) := by
      rw [Bool.eq_iff_iff, bne_iff_ne, bne_iff_ne]
      exact (h.whole.get_eq_empty_iff huri).not
    rw [Function.comp_apply, Declaration.read, hzero, h.isReserved_get hk hpfx]
  rw [TreeQuery.Scope.bindings, bindings, read, ← List.map_nil (f := pool.get), heffective,
    List.filter_map, hfilter, ← List.map_reverse, List.map_map, List.map_map]
  rfl

end Faithful

/-! ### Without elements -/

theorem initial_known (hpool : pool.Laid) :
    pool.Grows (initial pool).2 ∧ (initial pool).1.KnownTo (initial pool).2 := by
  have hxml := hpool.grows_intern "xml"
  have hxmlns := hxml.laid.grows_intern "xmlns"
  have hxmlUri := hxmlns.laid.grows_intern Namespace.xml
  have hxmlnsUri := hxmlUri.laid.grows_intern Namespace.xmlns
  have hrest := hxmlUri.trans hxmlnsUri
  have hfirst := (hxmlns.trans hrest).lt (hpool.intern_lt "xml")
  have hsecond := hrest.lt (hxml.laid.intern_lt "xmlns")
  have hthird := hxmlnsUri.lt (hxmlns.laid.intern_lt Namespace.xml)
  have hlast := hxmlUri.laid.intern_lt Namespace.xmlns
  exact ⟨(hxml.trans hxmlns).trans hrest, List.forall_mem_cons.mpr ⟨⟨hsecond, hlast⟩,
    List.forall_mem_singleton.mpr ⟨hfirst, hthird⟩⟩, hfirst, hsecond⟩

theorem initial_faithful (hpool : pool.Laid) (hwhole : pool.Whole)
    (hroom : (initial pool).2.byteSize < UInt32.size) :
    (initial pool).1.Faithful (initial pool).2 ∧
      (initial pool).1.read (initial pool).2 = TreeQuery.Scope.initial := by
  have hxml := hpool.grows_intern "xml"
  have hxmlns := hxml.laid.grows_intern "xmlns"
  have hxmlUri := hxmlns.laid.grows_intern Namespace.xml
  have hxmlnsUri := hxmlUri.laid.grows_intern Namespace.xmlns
  have hrest := hxmlUri.trans hxmlnsUri
  have hall := hxmlns.trans hrest
  have hwhole₁ := hxml.whole hwhole (hall.room hroom)
  have hwhole₂ := hxmlns.whole hwhole₁ (hrest.room hroom)
  have hwhole₃ := hxmlUri.whole hwhole₂ (hxmlnsUri.room hroom)
  have hfirst := hwhole.get_intern hpool hall hroom
  have hsecond := hwhole₁.get_intern hxml.laid hrest hroom
  have hthird := hwhole₂.get_intern hxmlns.laid hxmlnsUri hroom
  have hlast := hwhole₃.get_intern hxmlUri.laid hxmlnsUri.laid.grows hroom
  refine ⟨⟨hxmlnsUri.whole hwhole₃ hroom, hfirst, hsecond⟩, ?_⟩
  simp only [initial, read, List.map_cons, List.map_nil, Declaration.read, hfirst, hsecond, hthird,
    hlast]
  rfl

end Scope

end TreeQuery.Stored
