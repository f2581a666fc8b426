import TreeQuery.Proofs.Selector.Positions

/-!
Elements of one type. The pseudo-classes for types count the siblings that pass the test of their
own compound. On an element that passes it, these are the siblings that agree with the element in
what the test looks at: nothing, the local name, how the namespace is written or which one it is.
-/
namespace TreeQuery.Selector

open TreeQuery.Expr

variable (d : Document) (options : QueryOptions)

/-! ## What a type is -/

/-- Two elements have one namespace, as a test with a prefix sees it: with aliases the same URI,
with none at all the same prefix as written. -/
def SameSpace (x y : NodeId) : Prop :=
  if options.aliases.isEmpty then d.view.pfx? y = d.view.pfx? x else d.view.uri? y = d.view.uri? x

/-- Two elements are of one type, for a type selector that one of them passes. Without a name all
elements are; a name without prefix asks for names written without one. -/
def SameType (x y : NodeId) : Option TypeSelector → Prop
  | none | some ⟨none, .any⟩ | some ⟨some .any, .any⟩ => True
  | some ⟨none, .name _⟩ =>
    d.view.localName? y = d.view.localName? x ∧ d.view.pfx? y = d.view.pfx? x
  | some ⟨some .any, .name _⟩ => d.view.localName? y = d.view.localName? x
  | some ⟨some (.name _), .any⟩ => SameSpace d options x y
  | some ⟨some (.name _), .name _⟩ =>
    d.view.localName? y = d.view.localName? x ∧ SameSpace d options x y

/-- A sibling element of the same type, to the side from which positions count. -/
def IsPeer (element : Option TypeSelector) (kind : NthKind) (x y : NodeId) : Prop :=
  d.Siblings x y ∧ d.kind y = .element ∧ kind.Precedes y x ∧ SameType d options x y element

variable {d options} {element : Option TypeSelector} {x y : NodeId} {focus : Focus}

theorem prefixFits_iff_sameSpace {pfx : String}
    (h : ReadyTest.prefixFits d.view options.aliases pfx x = true) :
    ReadyTest.prefixFits d.view options.aliases pfx y = true ↔ SameSpace d options x y := by
  rw [ReadyTest.prefixFits] at h ⊢
  rw [SameSpace]
  split
  · rename_i hnone
    rw [if_pos hnone, beq_iff_eq] at h
    rw [beq_iff_eq, h]
  · rename_i hsome
    rw [if_neg hsome] at h
    split at h
    · rename_i uri huri
      rw [beq_iff_eq] at h
      rw [h, beq_iff_eq]
    · cases h

/-- Where one element passes a test, the elements that pass it are those of its type. -/
theorem passes_iff_sameType (hx : Passes d options element x) (hy : d.kind y = .element) :
    Passes d options element y ↔ SameType d options x y element := by
  have hkind : d.view.kind y = .element := hy
  rw [Passes] at hx ⊢
  rcases element with _ | ⟨_ | _ | pfx, _ | name⟩ <;>
    simp only [elementTest, NamePart.test, NodeTest.ready, ReadyTest.fits, Axis.principal, SameType,
      Bool.and_eq_true, beq_iff_eq, hkind, true_and, Option.isNone_iff_eq_none] at hx ⊢
  case some.none.name => rw [hx.1.2, hx.2, and_comm]
  case some.some.any.name => rw [hx.2]
  case some.some.name.any => exact prefixFits_iff_sameSpace hx.2
  case some.some.name.name => rw [hx.1.2, prefixFits_iff_sameSpace hx.2]

/-! ## Siblings of the type -/

section
variable {kind : NthKind}

theorem exists_parent_of_passes (hd : d.WellBuilt) (h : Passes d options element x) :
    d.InTree x ∧ ∃ p, d.view.parent? x = some p :=
  ⟨Document.inTree_of_element (kind_of_passes h), hd.exists_parent_of_element (kind_of_passes h)⟩

/-- The siblings that the pseudo-classes for types count are the peers of the element. -/
theorem lists_counted (hd : d.WellBuilt) (hpasses : Passes d options element x)
    (hkind : kind.test (elementTest element) = elementTest element) :
    Lists (kind.counted d options.aliases (elementTest element) x)
      (IsPeer d options element kind x) := by
  obtain ⟨hx, p, hp⟩ := exists_parent_of_passes hd hpasses
  refine ⟨List.pairwise_lt_range.filter _, fun y => ?_⟩
  rw [NthKind.mem_counted, hkind, ← Passes, IsPeer, Document.siblings_iff hx hp, hp]
  constructor
  · rintro ⟨⟨hy, hside⟩, hfits⟩
    have helement : d.kind y = .element := kind_of_passes hfits
    exact ⟨hy, helement, hside, (passes_iff_sameType hpasses helement).mp hfits⟩
  · rintro ⟨hy, helement, hside, hsame⟩
    exact ⟨⟨hy, hside⟩, (passes_iff_sameType hpasses helement).mpr hsame⟩

theorem length_counted_le (aliases : List (String × String)) (test : NodeTest) (id : NodeId) :
    (kind.counted d aliases test id).length ≤ d.size :=
  (List.length_filter_le _ _).trans_eq List.length_range

variable (hd : d.WellBuilt) (hpasses : Passes d options element focus.node)
  (hkind : kind.test (elementTest element) = elementTest element)
include hd hpasses hkind

theorem chosen_eq_counted :
    chosen d.view options kind.axis (elementTest element) [] focus.node =
      kind.counted d options.aliases (elementTest element) focus.node := by
  obtain ⟨hid, p, hp⟩ := exists_parent_of_passes hd hpasses
  have hchosen := @chosen_axis d options _ hd hid p hp kind (elementTest element)
  rwa [hkind] at hchosen

theorem says_noneOn :
    Says d.view options focus (noneOn kind.axis (elementTest element))
      (∀ y, ¬ IsPeer d options element kind focus.node y) := by
  refine ⟨_, eval_noneOn _ _ _, ?_⟩
  rw [chosen_eq_counted hd hpasses hkind, List.isEmpty_iff, List.eq_nil_iff_forall_not_mem]
  simp only [(lists_counted hd hpasses hkind).mem_iff]

omit hkind in
theorem says_nth {series : Nth} (ha : Nth.inRange series.a = true)
    (hb : Nth.inRange series.b = true) (hsize : d.size ≤ Nat.pow 2 32) :
    Says d.view options focus ((Structural.nth kind series).condition (elementTest element))
      (series.Includes (kind.position d options.aliases (elementTest element) focus.node)) := by
  obtain ⟨hid, p, hp⟩ := exists_parent_of_passes hd hpasses
  have hcount := @length_counted_le d kind options.aliases (elementTest element) focus.node
  have hpow : Nat.pow 2 32 + 2147483649 ≤ Nat.pow 2 53 := by decide
  have hrange := hb
  simp only [Nth.inRange, Bool.and_eq_true, decide_eq_true_eq] at hrange
  rw [Structural.condition_nth]
  refine Nth.says_condition ha hb (givesWhole_positionOn hd hid hp ?_) ?_
  · rw [NthKind.position]
    omega
  · rw [NthKind.position]
    omega

end

/-! ## Compounds that are negated -/

section
variable {e : Expr} {p : Prop}

theorem Decides.holds_iff (h : Decides d.view options focus e p)
    (hsettled : Selection.Settled (e.eval d.view options)) :
    Selection.holds (e.eval d.view options) focus.node = true ↔ p := by
  obtain ⟨value, heval, _, _, hp⟩ := h
  obtain ⟨settled, hsettled⟩ := hsettled
  have hvalue : settled focus.node = value := by
    have hsame := (hsettled focus).1.symm.trans heval
    simpa using hsame
  rw [Selection.holds, (hsettled _).1, ← hp, ← hvalue]

theorem says_not {value : Value} (h : e.eval d.view options focus = .ok value) :
    Says d.view options focus (call "not" [e]) (¬ value.toBoolean = true) :=
  ⟨_, (eval_call .not (evalArgs_cons h rfl)).trans rfl, by simp⟩

/-- A negation holds where the compound in it fails. -/
theorem Filter.decides_not {filters : List Filter} {holds : Filter → Prop} (outer : NodeTest)
    (h : ∀ f ∈ filters,
      Decides d.view options focus (f.condition (elementTest element)) (holds f)) :
    Decides d.view options focus ((Filter.not element filters).condition outer)
      (¬ (Passes d options element focus.node ∧ ∀ f ∈ filters, holds f)) := by
  have hfilters : (∀ c ∈ Expr.conditions d.view options
      (Filter.conditions (elementTest element) filters),
        Selection.holds c focus.node = true) ↔ ∀ f ∈ filters, holds f := by
    rw [Filter.conditions_eq_map, Expr.conditions_eq_map]
    simp only [List.forall_mem_map]
    exact forall₂_congr fun f hf => (h f hf).holds_iff (f.settled_condition _)
  have hself : ∀ y, y ∈ d.view.along .self focus.node ↔ y = focus.node := by
    simp [View.along]
  have hsettled := @Filter.settled_conditions options d.view (elementTest element) filters
  have hpath := @eval_relative_step d.view options .self (elementTest element) _ hsettled focus
  have hsome : (Value.nodes (chosen d.view options .self (elementTest element)
      (Filter.conditions (elementTest element) filters) focus.node)).toBoolean = true ↔
        Passes d options element focus.node ∧ ∀ f ∈ filters, holds f := by
    rw [← hfilters, Passes, Value.toBoolean, Bool.not_eq_true', List.isEmpty_eq_false_iff_exists_mem]
    simp only [mem_chosen, hself, and_assoc, exists_eq_left]
  have hsays := (says_not hpath).congr (not_congr hsome)
  have hwellFormed := Filter.wellFormed_condition outer (Filter.not element filters)
  rw [Filter.condition] at hwellFormed ⊢
  exact hsays.decides hwellFormed

end

/-! ## Pseudo-classes for types -/

/-- At an element that a compound is tested on, its pseudo-classes for types speak of the siblings
that are elements of the type of the element: the first has none before it, the last none behind it,
the only one none at all, and the other two count them, for all steps and first places of 32 bits
and as many nodes. In a negation they say the same. -/
theorem Structural.decides_ofType (events : List Event) (options : QueryOptions)
    (element : Option TypeSelector) (focus : Focus)
    (h : Passes (Document.ofEvents events) options element focus.node) :
    let d := Document.ofEvents events
    let test := elementTest element
    let peer := fun kind => IsPeer d options element kind focus.node
    Decides d.view options focus (firstOfType.condition test) (∀ y, ¬ peer .ofType y) ∧
      Decides d.view options focus (lastOfType.condition test) (∀ y, ¬ peer .lastOfType y) ∧
      Decides d.view options focus (onlyOfType.condition test)
        ((∀ y, ¬ peer .ofType y) ∧ ∀ y, ¬ peer .lastOfType y) ∧
      (∀ kind ∈ [NthKind.ofType, .lastOfType], ∃ ids, Lists ids (peer kind) ∧
        (countOf kind.axis test).eval d.view options focus = .ok (.ofNat ids.length) ∧
        ∀ series : Nth, Nth.inRange series.a = true → Nth.inRange series.b = true →
          d.size ≤ Nat.pow 2 32 →
            Decides d.view options focus ((nth kind series).condition test)
              (∃ n : Nat, ((ids.length + 1 : Nat) : Int) = series.a * n + series.b)) ∧
      ∀ (outer : NodeTest) (filters : List Filter) (holds : Filter → Prop),
        (∀ f ∈ filters, Decides d.view options focus (f.condition test) (holds f)) →
          Decides d.view options focus ((Filter.not element filters).condition outer)
            (¬ ∀ f ∈ filters, holds f) := by
  intro d test peer
  have hd : d.WellBuilt := Document.wellBuilt_ofEvents events
  have hfirst : Says d.view options focus (firstOfType.condition test) (∀ y, ¬ peer .ofType y) :=
    @says_noneOn d options element focus .ofType hd h rfl
  have hlast : Says d.view options focus (lastOfType.condition test)
      (∀ y, ¬ peer .lastOfType y) := @says_noneOn d options element focus .lastOfType hd h rfl
  have honly : Says d.view options focus (onlyOfType.condition test)
      ((∀ y, ¬ peer .ofType y) ∧ ∀ y, ¬ peer .lastOfType y) := hfirst.and hlast
  refine ⟨hfirst.decides (wellFormed_condition _ _), hlast.decides (wellFormed_condition _ _),
    honly.decides (wellFormed_condition _ _), fun kind hmem => ?_,
    fun outer filters holds hfilters => ?_⟩
  · have hkind : kind.test test = test := by
      simp only [List.mem_cons, List.not_mem_nil, or_false] at hmem
      rcases hmem with rfl | rfl <;> rfl
    refine ⟨_, lists_counted hd h hkind, ?_, fun series ha hb hsize => ?_⟩
    · rw [eval_countOf, chosen_eq_counted hd h hkind]
    · exact (says_nth hd h ha hb hsize).decides (wellFormed_condition _ _)
  · exact (Filter.decides_not outer hfilters).congr (by rw [and_iff_right h])

theorem Structural.decides_ofType_by_uri :
    let events : List Event := [.start "r" [("xmlns:s", "urn:s"), ("xmlns:t", "urn:s")],
      .empty "s:p" [], .empty "p" [], .empty "t:p" [], .empty "s:p" [], .close]
    let options : QueryOptions := { aliases := [("n", "urn:s")] }
    let element : Option TypeSelector := some ⟨some (.name "n"), .name "p"⟩
    let d := Document.ofEvents events
    let test := elementTest element
    let peer := fun kind => IsPeer d options element kind 10
    Passes d options element 10 ∧
      Decides d.view options { node := 10 } (firstOfType.condition test) (∀ y, ¬ peer .ofType y) ∧
      ∃ ids, Lists ids (peer .ofType) ∧
        Decides d.view options { node := 10 } ((nth .ofType ⟨0, 2⟩).condition test)
          (∃ n : Nat, ((ids.length + 1 : Nat) : Int) = 0 * n + 2) := by
  intro events options element d test peer
  have hpasses : ((elementTest element).ready .self).fits d.view options.aliases 10 = true := by
    decide +kernel
  have hsize : d.size ≤ Nat.pow 2 32 := by decide +kernel
  have hall := Structural.decides_ofType events options element { node := 10 } hpasses
  obtain ⟨ids, hids, _, hseries⟩ := hall.2.2.2.1 .ofType (by decide)
  exact ⟨hpasses, hall.1, ids, hids, hseries ⟨0, 2⟩ (by decide) (by decide) hsize⟩

/-- Without a type selector, an element behind another one of a different name is the first of its
type by name and URI, but not for the pseudo-class. -/
theorem Structural.decides_ofType_fails :
    ¬ ∀ (events : List Event) (options : QueryOptions) (element : Option TypeSelector)
      (id : NodeId),
      let d := Document.ofEvents events
      Passes d options element id →
        (TrueAt d options (firstOfType.condition (elementTest element)) id ↔
          ∀ y, d.Siblings id y → d.kind y = .element → y < id →
            ¬ (d.view.localName? y = d.view.localName? id ∧ d.view.uri? y = d.view.uri? id)) := by
  intro h
  let events : List Event := [.start "r" [], .empty "p" [], .empty "q" [], .close]
  let d := Document.ofEvents events
  have hpasses : Passes d {} none 3 := beq_iff_eq.mpr (by decide)
  have hnames : ∀ y < 3, d.view.localName? y ≠ d.view.localName? 3 := by decide
  have htrue := (h events {} none 3 hpasses).mpr fun y _ _ hlt hsame => hnames y hlt hsame.1
  have hfirst : Says d.view {} { node := 3 } (firstOfType.condition (elementTest none))
      (∀ y, ¬ IsPeer d {} none .ofType 3 y) :=
    @says_noneOn d {} none { node := 3 } .ofType (Document.wellBuilt_ofEvents events) hpasses rfl
  have hdecides := hfirst.decides (wellFormed_condition _ .firstOfType)
  have hnone : ∀ y, ¬ IsPeer d {} none .ofType 3 y := hdecides.trueAt_iff.mp htrue
  have hsiblings : d.Siblings 3 2 := ⟨Document.inTree_of_element (by decide),
    Document.inTree_of_element (by decide), 1, by decide, by decide⟩
  exact hnone 2 ⟨hsiblings, by decide, by decide, trivial⟩

end TreeQuery.Selector
