import TreeQuery.Proofs.Tree.Building
import TreeQuery.Proofs.Tree.Stored.Scope

/-!
Elements that open, by numbers. Declarations, the name and the attributes of an element put their
strings into the pool one after the other; what is read for them at the end is what a builder over
strings makes of the written name and attributes.
-/
namespace TreeQuery.Stored

attribute [local irreducible] StringPool.intern

variable {pool next : StringPool}

namespace Scope

variable {s : Scope}

/-! ## Names and attributes -/

theorem declareAll_known (hs : s.KnownTo pool) (hpool : pool.Laid) (attrs : WrittenAttrs) :
    pool.Grows (s.declareAll pool attrs).2 ∧
      (s.declareAll pool attrs).1.KnownTo (s.declareAll pool attrs).2 := by
  induction attrs generalizing s pool with
  | nil => exact ⟨hpool.grows, hs⟩
  | cons attr attrs ih =>
      obtain ⟨name, value⟩ := attr
      rw [declareAll]
      cases Builder.declared? name with
      | none => exact ih hs hpool
      | some pfx =>
          have hgrows := hpool.grows_intern pfx
          have hgrows' := hgrows.laid.grows_intern value
          have hpfx := hgrows'.lt (hpool.intern_lt pfx)
          have huri := hgrows.laid.intern_lt value
          obtain ⟨hrest, hknown⟩ :=
            ih (((hs.grows hgrows).grows hgrows').declare hpfx huri) hgrows'.laid
          exact ⟨(hgrows.trans hgrows').trans hrest, hknown⟩

/-- The scope inside an element is what its declarations make of the scope around it. -/
theorem Faithful.declareAll (h : s.Faithful pool) (hs : s.KnownTo pool) (hpool : pool.Laid)
    {attrs : WrittenAttrs} (hroom : (s.declareAll pool attrs).2.byteSize < UInt32.size) :
    (s.declareAll pool attrs).1.Faithful (s.declareAll pool attrs).2 ∧
      (s.declareAll pool attrs).1.read (s.declareAll pool attrs).2 =
        attrs.foldl
          (fun scope (name, value) =>
            match TreeQuery.Builder.declared? name with
            | some pfx => scope.declare pfx value
            | none => scope)
          (s.read pool) := by
  induction attrs generalizing s pool with
  | nil => exact ⟨h, rfl⟩
  | cons attr attrs ih =>
      obtain ⟨name, value⟩ := attr
      rw [Scope.declareAll] at hroom ⊢
      cases hdeclared : Builder.declared? name with
      | none =>
          rw [hdeclared] at hroom
          simp only [List.foldl_cons, hdeclared]
          exact ih h hs hpool hroom
      | some pfx =>
          rw [hdeclared] at hroom
          have hgrows := hpool.grows_intern pfx
          have hgrows' := hgrows.laid.grows_intern value
          have hpfx := hgrows'.lt (hpool.intern_lt pfx)
          have huri := hgrows.laid.intern_lt value
          have hknown := (hs.grows hgrows).grows hgrows'
          have hrest := (declareAll_known (hknown.declare hpfx huri) hgrows'.laid attrs).1
          have hroom' := hrest.room hroom
          have hfaithful := h.grows hs (hgrows.trans hgrows') hroom'
          have hwhole := (h.grows hs hgrows (hgrows'.room hroom')).whole
          have hread : (s.declare (pool.intern pfx).1 ((pool.intern pfx).2.intern value).1).read
              ((pool.intern pfx).2.intern value).2 = (s.read pool).declare pfx value := by
            rw [hfaithful.read_declare hknown hpfx, hs.read_eq (hgrows.trans hgrows'),
              h.whole.get_intern hpool hgrows' hroom',
              hwhole.get_intern hgrows.laid hgrows'.laid.grows hroom']
          have hall := ih (hfaithful.declare _ _) (hknown.declare hpfx huri) hgrows'.laid hroom
          rw [hread] at hall
          simp only [List.foldl_cons, hdeclared]
          exact hall

theorem elementName_known (hs : s.KnownTo pool) (hpool : pool.Laid) (written : String) :
    pool.Grows (s.elementName pool written).2 ∧
      ∀ id ∈ (s.elementName pool written).1.ids,
        id.toNat < (s.elementName pool written).2.size := by
  have hgrows := hpool.grows_intern (QName.split written).2
  have hgrows' := hgrows.laid.grows_intern (QName.split written).1
  refine ⟨hgrows.trans hgrows', fun id hid => ?_⟩
  simp only [Name.ids, List.mem_cons, List.not_mem_nil, or_false] at hid
  rcases hid with rfl | rfl | rfl
  · exact hgrows.laid.intern_lt _
  · exact hgrows'.lt (hpool.intern_lt _)
  · exact (hs.grows (hgrows.trans hgrows')).resolve_lt _

theorem Faithful.elementName (h : s.Faithful pool) (hs : s.KnownTo pool) (hpool : pool.Laid)
    {written : String} (hroom : (s.elementName pool written).2.byteSize < UInt32.size) :
    (s.elementName pool written).1.read (s.elementName pool written).2 =
      TreeQuery.Builder.elementName (s.read pool) written := by
  have hgrows := hpool.grows_intern (QName.split written).2
  have hgrows' := hgrows.laid.grows_intern (QName.split written).1
  have hwhole := (h.grows hs hgrows (hgrows'.room hroom)).whole
  have hlocal := h.whole.get_intern hpool hgrows' hroom
  have hpfx := hwhole.get_intern hgrows.laid hgrows'.laid.grows hroom
  have huri := (h.grows hs (hgrows.trans hgrows') hroom).resolve_read
    (hs.grows (hgrows.trans hgrows')) (hgrows.laid.intern_lt _)
  rw [hs.read_eq (hgrows.trans hgrows'), hpfx] at huri
  simp only [Scope.elementName, Name.read, TreeQuery.Builder.elementName, hlocal, hpfx, huri]

theorem attr_known (hs : s.KnownTo pool) (hpool : pool.Laid) (written value : String) :
    pool.Grows (s.attr pool written value).2 ∧
      (s.attr pool written value).1.KnownTo (s.attr pool written value).2 := by
  have hgrows := hpool.grows_intern (QName.split written).2
  have hgrows' := hgrows.laid.grows_intern value
  have hgrows'' := hgrows'.laid.grows_intern (QName.split written).1
  have hall := (hgrows.trans hgrows').trans hgrows''
  refine ⟨hall, fun id hid => ?_⟩
  simp only [Scope.attr, Content.ids, Name.ids, List.mem_cons, List.not_mem_nil, or_false] at hid
  rcases hid with rfl | rfl | rfl | rfl
  · exact hgrows''.lt (hgrows.laid.intern_lt _)
  · exact hgrows'.laid.intern_lt _
  · exact (hgrows'.trans hgrows'').lt (hpool.intern_lt _)
  · split
    · exact hall.laid.size_pos
    · exact (hs.grows hall).resolve_lt _

theorem Faithful.attr (h : s.Faithful pool) (hs : s.KnownTo pool) (hpool : pool.Laid)
    {written value : String} (hroom : (s.attr pool written value).2.byteSize < UInt32.size) :
    (s.attr pool written value).1.read (s.attr pool written value).2 =
      .attr (TreeQuery.Builder.attrName (s.read pool) written) value := by
  have hgrows := hpool.grows_intern (QName.split written).2
  have hgrows' := hgrows.laid.grows_intern value
  have hgrows'' := hgrows'.laid.grows_intern (QName.split written).1
  have hall := (hgrows.trans hgrows').trans hgrows''
  have hroom' := hgrows''.room hroom
  have hfirst := (h.grows hs hgrows (hgrows'.room hroom')).whole
  have hsecond := (h.grows hs (hgrows.trans hgrows') hroom').whole
  have hlocal := h.whole.get_intern hpool (hgrows'.trans hgrows'') hroom
  have hvalue := hfirst.get_intern hgrows.laid hgrows'' hroom
  have hpfx := hsecond.get_intern hgrows'.laid hgrows''.laid.grows hroom
  have hlast := h.grows hs hall hroom
  have hlt := hgrows'.laid.intern_lt (QName.split written).1
  have huri := hlast.resolve_read (hs.grows hall) hlt
  have hempty := hlast.whole.get_eq_empty_iff hlt
  rw [hs.read_eq hall, hpfx] at huri
  rw [hpfx] at hempty
  simp only [Scope.attr, Content.read, Name.read, TreeQuery.Builder.attrName, hlocal, hvalue, hpfx,
    hempty, huri]
  split
  · rw [hlast.whole.get_zero]
  · rfl

theorem attrs_known (hs : s.KnownTo pool) (hpool : pool.Laid) (attrs : WrittenAttrs) :
    pool.Grows (s.attrs pool attrs).2 ∧
      ∀ c ∈ (s.attrs pool attrs).1, c.KnownTo (s.attrs pool attrs).2 := by
  induction attrs generalizing pool with
  | nil => exact ⟨hpool.grows, List.forall_mem_nil _⟩
  | cons attr attrs ih =>
      obtain ⟨hgrows, hknown⟩ := attr_known hs hpool attr.1 attr.2
      obtain ⟨hrest, hknown'⟩ := ih (hs.grows hgrows) hgrows.laid
      exact ⟨hgrows.trans hrest, List.forall_mem_cons.mpr ⟨hknown.grows hrest, hknown'⟩⟩

theorem Faithful.attrs (h : s.Faithful pool) (hs : s.KnownTo pool) (hpool : pool.Laid)
    {attrs : WrittenAttrs} (hroom : (s.attrs pool attrs).2.byteSize < UInt32.size) :
    (s.attrs pool attrs).1.map (Content.read (s.attrs pool attrs).2) =
      attrs.map fun (name, value) =>
        .attr (TreeQuery.Builder.attrName (s.read pool) name) value := by
  induction attrs generalizing pool with
  | nil => rfl
  | cons attr attrs ih =>
      obtain ⟨hgrows, hknown⟩ := attr_known hs hpool attr.1 attr.2
      obtain ⟨hrest, -⟩ := attrs_known (hs.grows hgrows) hgrows.laid attrs
      have hroom' := hrest.room hroom
      have hfirst := (hknown.read_eq hrest).trans (h.attr hs hpool hroom')
      have hall := ih (h.grows hs hgrows hroom') (hs.grows hgrows) hgrows.laid hroom
      rw [hs.read_eq hgrows] at hall
      exact List.cons_eq_cons.mpr ⟨hfirst, hall⟩

theorem length_attrs (s : Scope) (pool : StringPool) (attrs : WrittenAttrs) :
    (s.attrs pool attrs).1.length = attrs.length := by
  induction attrs generalizing pool with
  | nil => rfl
  | cons attr attrs ih => exact congrArg (· + 1) (ih _)

theorem kind_attrs (s : Scope) (pool next : StringPool) (attrs : WrittenAttrs) :
    ∀ c ∈ (s.attrs pool attrs).1, (c.read next).kind = .attr := by
  induction attrs generalizing pool with
  | nil => exact List.forall_mem_nil _
  | cons attr attrs ih => exact List.forall_mem_cons.mpr ⟨rfl, ih _⟩

end Scope

/-! ## Elements that open -/

namespace Opening

open TreeQuery.Builder (wordMax plainAttrs innerScope)

structure Known (o : Opening) : Prop where
  scope : o.scope.KnownTo o.strings
  name : ∀ id ∈ o.name.ids, id.toNat < o.strings.size
  attrs : ∀ c ∈ o.attrs, c.KnownTo o.strings

section
variable {s : Scope} (hs : s.KnownTo pool) (hpool : pool.Laid) (name : String)
  (attrs : WrittenAttrs)
include hs hpool

theorem known : pool.Grows (of s pool name attrs).strings ∧ (of s pool name attrs).Known := by
  obtain ⟨hdeclared, hscope⟩ := Scope.declareAll_known hs.push hpool attrs
  obtain ⟨hnamed, hname⟩ := Scope.elementName_known hscope hdeclared.laid name
  obtain ⟨hattrs, hknown⟩ := Scope.attrs_known (hscope.grows hnamed) hnamed.laid (plainAttrs attrs)
  exact ⟨(hdeclared.trans hnamed).trans hattrs, (hscope.grows hnamed).grows hattrs,
    fun id hid => hattrs.lt (hname id hid), hknown⟩

/-- What is read of an element that opens is what is made of its written name and attributes. -/
theorem faithful (h : s.Faithful pool)
    (hroom : (of s pool name attrs).strings.byteSize < UInt32.size) :
    let o := of s pool name attrs
    let inner := innerScope (s.read pool) attrs
    o.scope.Faithful o.strings ∧ o.scope.read o.strings = inner ∧
      o.name.read o.strings = TreeQuery.Builder.elementName inner name ∧
      o.attrs.map (Content.read o.strings) = (plainAttrs attrs).map fun (name, value) =>
        .attr (TreeQuery.Builder.attrName inner name) value := by
  intro o inner
  obtain ⟨hdeclared, hscope⟩ := Scope.declareAll_known hs.push hpool attrs
  obtain ⟨hnamed, hname⟩ := Scope.elementName_known hscope hdeclared.laid name
  have hscope' := hscope.grows hnamed
  obtain ⟨hattrs, -⟩ := Scope.attrs_known hscope' hnamed.laid (plainAttrs attrs)
  have hroom' := hattrs.room hroom
  have hpush : s.push.Faithful pool := ⟨h.whole, h.xml, h.xmlns⟩
  obtain ⟨hfaithful, hinner⟩ :=
    hpush.declareAll hs.push hpool (hnamed.room hroom')
  have hfaithful' := hfaithful.grows hscope hnamed hroom'
  have hread := (hscope.read_eq hnamed).trans hinner
  refine ⟨hfaithful'.grows hscope' hattrs hroom, (hscope'.read_eq hattrs).trans hread, ?_, ?_⟩
  · have hall : (Content.element o.name 0 0).KnownTo _ := hname
    have hkept := hall.read_eq hattrs
    have hnow := hfaithful.elementName hscope hdeclared.laid hroom'
    rw [hinner] at hnow
    simp only [Content.read, TreeQuery.Content.element.injEq, and_true] at hkept
    exact hkept.trans hnow
  · have hnow := hfaithful'.attrs hscope' hnamed.laid hroom
    rwa [hread] at hnow

end

variable {o : Opening}

theorem length_bindings_le (o : Opening) : o.bindings.length ≤ wordMax := List.length_take_le _ _

theorem length_attrs_le (s : Scope) (pool : StringPool) (name : String) (attrs : WrittenAttrs) :
    (of s pool name attrs).attrs.length ≤ wordMax :=
  (Scope.length_attrs _ _ (plainAttrs attrs)).le.trans (List.length_take_le _ _)

/-- The numbers of bindings and attributes are not cut. -/
theorem element_read (s : Scope) (name : String) (attrs : WrittenAttrs) :
    let o := of s pool name attrs
    o.element.read next = .element (o.name.read next) o.bindings.length o.attrs.length := by
  intro o
  have hword : ∀ {n : Nat}, n ≤ wordMax → (UInt16.ofNat n).toNat = n := fun hn =>
    UInt16.toNat_ofNat_of_lt' (Nat.lt_succ_of_le hn)
  rw [element, Content.read, hword o.length_bindings_le, hword (length_attrs_le s pool name attrs)]

theorem Known.element (h : o.Known) : o.element.KnownTo o.strings := h.name

theorem Known.owned (h : o.Known) : ∀ c ∈ o.owned, c.KnownTo o.strings := by
  intro c hc
  rcases List.mem_append.mp hc with hc | hc
  · obtain ⟨entry, hentry, rfl⟩ := List.mem_map.mp hc
    obtain ⟨d, hd, rfl⟩ := Scope.mem_bindings (List.mem_of_mem_take hentry)
    obtain ⟨hpfx, huri⟩ := h.scope.declarations d hd
    exact List.forall_mem_cons.mpr ⟨hpfx, List.forall_mem_singleton.mpr huri⟩
  · exact h.attrs c hc

end Opening

end TreeQuery.Stored
