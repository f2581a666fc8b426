import TreeQuery.Proofs.Selector.Parts

/-!
Every text of a list of selectors is parsed as the list. Each part of a list has a lemma that gives
the tokens of its text, from which the parser of the part reads it again; `parse_of_spelled` joins
them.
-/
namespace TreeQuery.Selector

open TreeQuery.Text

/-! ## Filters -/

/-- The text of a filter is cut into tokens from which the filter is read. Filters nest no deeper
than there are tokens. -/
structure Filter.Reread (f : Filter) (cs : List Char) (front : List TokenKind) : Prop where
  opens : Opens isFilterStart cs
  starts : Opens TokenKind.startsFilter front
  lexes : ∀ {rest kinds}, Closes rest → Lexes rest kinds → Lexes (cs ++ rest) (front ++ kinds)
  takes : ∀ {depth}, front.length ≤ depth →
    Takes (filter? (compoundNested depth)) (some f) front fun _ => True

theorem reread_className {text : String} (h : IsBareName text) :
    (Filter.className text).Reread ('.' :: text.toList) [.dot, .ident text] := by
  refine ⟨opens_cons rfl _, opens_cons rfl _, fun hrest hlexes => ?_, fun _ input kinds h _ => ?_⟩
  · exact Lexes.single rfl (Lexes.ident h hrest.stops_name hlexes)
  · have hadvance := Input.advance_of_kinds h
    refine ⟨input.advance.advance, ?_, Input.advance_of_kinds hadvance⟩
    rw [filter?, Input.current_of_kinds h]
    simp only [className, Input.current_of_kinds hadvance, ok_bind]

theorem reread_id {text : String} (h : IsBareName text) :
    (Filter.id text).Reread ('#' :: text.toList) [.hash text] := by
  refine ⟨opens_cons rfl _, opens_cons rfl _, fun hrest hlexes => ?_, fun _ input kinds h _ => ?_⟩
  · exact Lexes.hash h.1 (stops_of_goesOn hrest.stops_name) hlexes
  · refine ⟨input.advance, ?_, Input.advance_of_kinds h⟩
    rw [filter?, Input.current_of_kinds h]

theorem AttrSelector.Spelled.exists_reread {selector : AttrSelector} {cs : List Char}
    (h : selector.Spelled cs) (hlegible : selector.Legible) :
    ∃ front, (Filter.attr selector).Reread cs front := by
  obtain @⟨pfx, name, comparison, before, after, text, hbefore, hafter, hcomparison⟩ := h
  obtain ⟨hpfx, hname, -⟩ := hlegible
  obtain ⟨front, hreread⟩ := hcomparison.exists_reread
  refine ⟨.leftBracket :: (blankKinds before ++ (prefixKinds pfx ++ .ident name ::
    (blankKinds after ++ (front ++ [.rightBracket])))), opens_cons rfl _, opens_cons rfl _,
    fun {rest kinds} _ hlexes => ?_, fun _ input kinds h _ => ?_⟩
  · -- From the bracket backwards, since each token must know what stands behind it.
    have hclose : Lexes (']' :: rest) (.rightBracket :: kinds) := .single rfl hlexes
    obtain ⟨hstops, hblank⟩ := hreread.stops rest
    have hcs := Lexes.ident hname (hafter.stops (by decide +kernel) hstops)
      (Lexes.blanks hafter hblank (hreread.lexes hclose))
    have hpart := lexes_prefixText hpfx (hname.opens.stops_eq _) hcs
    have hopen := opens_prefixText hpfx (hname.opens.append (after ++ (text ++ ']' :: rest)))
    have hblank := hopen.stops_blank []
    rw [List.append_nil] at hblank
    simpa using Lexes.single (c := '[') rfl (Lexes.blanks hbefore hblank hpart)
  · simp only [List.cons_append, List.append_assoc, List.nil_append] at h
    have hname := Input.skipBlanks_of_kinds (Input.advance_of_kinds h)
      (starts_prefixKinds pfx (.name name) _).heads_blank
    rw [List.append_cons] at hname
    obtain ⟨left, hrun, hleft⟩ := takes_attrName pfx name _ _ hname
      (heads_blankKinds rfl after ((hreread.heads kinds).imp fun _ hkind =>
        (Bool.and_eq_true_iff.mp hkind).1))
    have hcomparison := Input.skipBlanks_of_kinds hleft
      ((hreread.heads kinds).imp fun _ hkind => (Bool.and_eq_true_iff.mp hkind).2)
    obtain ⟨left', hrun', hleft'⟩ := hreread.takes _ _ hcomparison (opens_cons rfl _)
    refine ⟨left'.advance, ?_, Input.advance_of_kinds hleft'⟩
    rw [filter?, Input.current_of_kinds h]
    simp only [attrSelector, hrun, hrun', Input.expect_of_kinds hleft', ok_bind]

theorem NthKind.isBareName_title (kind : NthKind) : IsBareName kind.title := by
  cases kind <;> decide +kernel

theorem Structural.isBareName_title (condition : Structural) : IsBareName condition.title := by
  cases condition with
  | nth kind series => exact kind.isBareName_title
  | _ => decide +kernel

theorem reread_plain {condition : Structural} (h : ∀ kind series, condition ≠ .nth kind series) :
    (Filter.structural condition).Reread (':' :: condition.title.toList)
      [.colon, .ident condition.title] := by
  refine ⟨opens_cons rfl _, opens_cons rfl _, fun hrest hlexes => ?_,
    fun _ input kinds hinput _ => ?_⟩
  · exact Lexes.single rfl (Lexes.ident condition.isBareName_title hrest.stops_name hlexes)
  · have hlookup : plainClasses.lookup condition.title = some condition := by
      cases condition with
      | nth kind series => exact absurd rfl (h kind series)
      | _ => rfl
    have hadvance := Input.advance_of_kinds hinput
    refine ⟨input.advance.advance, ?_, Input.advance_of_kinds hadvance⟩
    rw [filter?, Input.current_of_kinds hinput]
    simp only [pseudoClass, Input.current_of_kinds hadvance, hlookup, ok_bind]

theorem reread_nth (kind : NthKind) {series : Nth} {cs : List Char}
    (h : Nth.Spelled (Nth.fold cs) series) :
    (Filter.structural (.nth kind series)).Reread
      (':' :: (kind.title.toList ++ '(' :: (cs ++ [')'])))
      [.colon, .function kind.title, .raw (String.ofList (trim isBlank cs)), .rightParen] := by
  have hraw : "nth-".isPrefixOf kind.title = true := by
    cases kind <;> decide +kernel
  refine ⟨opens_cons rfl _, opens_cons rfl _, fun {rest kinds} _ hlexes => ?_,
    fun _ input kinds hinput _ => ?_⟩
  · have hclose : Lexes (')' :: rest) (.rightParen :: kinds) := .single rfl hlexes
    have hseries := Lexes.series (kind.isBareName_title.cuts_function _) hraw
      (Nth.not_mem_of_spelled h) hclose
    simpa using Lexes.single (c := ':') rfl hseries
  · have hlookup : nthClasses.lookup kind.title = some kind := by cases kind <;> rfl
    have hparse : Nth.parse? (String.ofList (trim isBlank cs)) = some series := by
      rw [Nth.parse?_eq_some_iff, String.toList_ofList, Nth.fold_trim]
      exact h
    have hfunction := Input.advance_of_kinds hinput
    have harg := Input.advance_of_kinds hfunction
    have hclose := Input.advance_of_kinds harg
    refine ⟨input.advance.advance.advance.advance, ?_, Input.advance_of_kinds hclose⟩
    rw [filter?, Input.current_of_kinds hinput]
    simp only [pseudoClass, Input.current_of_kinds hfunction, pseudoFunction, hraw, if_true,
      nthArgument, Input.current_of_kinds harg, hparse, ok_bind, hlookup,
      Input.expect_of_kinds hclose]

theorem Structural.Spelled.exists_reread {condition : Structural} {cs : List Char}
    (h : condition.Spelled cs) : ∃ front, (Filter.structural condition).Reread cs front := by
  cases h with
  | plain h => exact ⟨_, reread_plain h⟩
  | nth kind hseries => exact ⟨_, reread_nth kind hseries⟩

/-- The same for filters in a row, in front of what ends a compound. -/
structure Filter.AllReread (fs : List Filter) (cs : List Char) (front : List TokenKind) : Prop where
  nil : fs = [] → cs = [] ∧ front = []
  opens : fs ≠ [] → Opens isFilterStart cs
  starts : fs ≠ [] → Opens TokenKind.startsFilter front
  lexes : ∀ {rest kinds}, Closes rest → Lexes rest kinds → Lexes (cs ++ rest) (front ++ kinds)
  takes : ∀ {depth rounds}, front.length ≤ depth → front.length ≤ rounds →
    Takes (filtersFrom (compoundNested depth) rounds) fs front (Heads TokenKind.endsCompound)

section
variable {fs : List Filter} {cs rest : List Char} {front kinds : List TokenKind}

theorem Filter.AllReread.closes (h : Filter.AllReread fs cs front) (hrest : Closes rest) :
    Closes (cs ++ rest) := by
  by_cases hfs : fs = []
  · rw [(h.nil hfs).1]
    exact hrest
  · exact ((h.opens hfs).append rest).heads.imp fun c hc => by simp [isCloser, hc]

theorem Filter.AllReread.heads (h : Filter.AllReread fs cs front)
    (hkinds : Heads TokenKind.endsCompound kinds) : Heads TokenKind.endsElement (front ++ kinds) := by
  by_cases hfs : fs = []
  · rw [(h.nil hfs).2]
    exact hkinds.imp fun kind hkind => by simp [TokenKind.endsElement, hkind]
  · exact ((h.starts hfs).append kinds).heads.imp fun kind hkind => by
      simp [TokenKind.endsElement, hkind]

theorem filter?_of_heads {inner : Parser Compound} {input : Input}
    (h : Heads TokenKind.endsCompound input.kinds) : filter? inner input = .ok (none, input) := by
  rw [filter?.eq_def, Input.current_eq]
  cases hkinds : input.kinds with
  | nil => rfl
  | cons kind kinds =>
      have hkind := h kind (by rw [hkinds]; rfl)
      cases kind <;> first | rfl | cases hkind

theorem allReread_nil : Filter.AllReread [] [] [] := by
  refine ⟨fun _ => ⟨rfl, rfl⟩, absurd rfl, absurd rfl, fun _ hlexes => hlexes,
    fun {_ rounds} _ _ input kinds h hkinds => ⟨input, ?_, h⟩⟩
  have hinput : input.kinds = kinds := h
  cases rounds with
  | zero => rfl
  | succ rounds => rw [filtersFrom, filter?_of_heads (hinput ▸ hkinds), ok_bind]

theorem allReread_cons {f : Filter} {ds : List Char} {behind : List TokenKind}
    (hf : f.Reread cs front) (hfs : Filter.AllReread fs ds behind) :
    Filter.AllReread (f :: fs) (cs ++ ds) (front ++ behind) := by
  refine ⟨nofun, fun _ => hf.opens.append ds, fun _ => hf.starts.append behind,
    fun {rest kinds} hrest hlexes => ?_,
    fun {depth rounds} hdepth hrounds input kinds h hkinds => ?_⟩
  · rw [List.append_assoc, List.append_assoc]
    exact hf.lexes (hfs.closes hrest) (hfs.lexes hrest hlexes)
  · rw [List.append_assoc] at h
    rw [List.length_append] at hdepth hrounds
    -- A filter has a token, so one of the rounds is left for it.
    have hlength := hf.starts.length_pos
    obtain ⟨rounds, rfl⟩ := Nat.exists_eq_add_of_le' (show 1 ≤ rounds by omega)
    obtain ⟨left, hrun, hleft⟩ := hf.takes (show front.length ≤ depth by omega) _ _ h trivial
    obtain ⟨left', hrun', hleft'⟩ :=
      hfs.takes (show behind.length ≤ depth by omega) (show behind.length ≤ rounds by omega)
        _ _ hleft hkinds
    refine ⟨left', ?_, hleft'⟩
    rw [filtersFrom, hrun, ok_bind]
    simp only [hrun', ok_bind]

end

/-! ## Compounds -/

/-- The text of a compound is cut into tokens from which the compound is read. -/
structure Compound.Reread (compound : Compound) (cs : List Char) (front : List TokenKind) :
    Prop where
  opens : Opens isFresh cs
  starts : Opens TokenKind.startsCompound front
  lexes : ∀ {rest kinds}, Closes rest → Lexes rest kinds → Lexes (cs ++ rest) (front ++ kinds)
  takes : ∀ {depth}, front.length ≤ depth →
    Takes (compoundNested (depth + 1)) compound front (Heads TokenKind.endsCompound)

section
variable {cs : List Char} {front : List TokenKind}

theorem isFresh_of_isFilterStart {c : Char} (h : isFilterStart c = true) : isFresh c = true := by
  simp only [isFilterStart, List.contains_iff_mem, List.mem_cons, List.not_mem_nil,
    or_false] at h
  rcases h with rfl | rfl | rfl | rfl <;> rfl

theorem startsCompound_of_startsFilter {kind : TokenKind} (h : kind.startsFilter = true) :
    kind.startsCompound = true := by
  cases kind <;> first | rfl | cases h

theorem reread_compound {element : Option TypeSelector} {filters : List Filter}
    (helement : ElementLegible element) (hne : element ≠ none ∨ filters ≠ [])
    (h : Filter.AllReread filters cs front) :
    Compound.Reread ⟨element, filters⟩ (elementText element ++ cs)
      (elementKinds element ++ front) := by
  refine ⟨?_, ?_, fun {rest kinds} hrest hlexes => ?_,
    fun {depth} hdepth input kinds hinput hkinds => ?_⟩
  · cases element with
    | none => exact (h.opens (hne.resolve_left (absurd rfl))).imp fun _ => isFresh_of_isFilterStart
    | some type =>
        obtain ⟨hpfx, hname⟩ := helement type rfl
        exact (opens_prefixText hpfx (NamePart.opens hname)).append cs
  · cases element with
    | none =>
        exact (h.starts (hne.resolve_left (absurd rfl))).imp fun _ => startsCompound_of_startsFilter
    | some type => exact (starts_prefixKinds type.pfx type.name []).append front
  · rw [List.append_assoc, List.append_assoc]
    exact lexes_element helement (h.closes hrest) (h.lexes hrest hlexes)
  · rw [List.append_assoc] at hinput
    rw [List.length_append] at hdepth
    obtain ⟨left, hrun, hleft⟩ := takes_typeSelector element _ _ hinput (h.heads hkinds)
    obtain ⟨left', hrun', hleft'⟩ := h.takes (show front.length ≤ depth by omega)
      (Input.length_le_of_kinds hleft) _ _ hleft hkinds
    refine ⟨left', ?_, hleft'⟩
    have hsome : ¬(element.isNone && filters.isEmpty) = true := by
      simpa [Decidable.imp_iff_not_or] using hne
    rw [compoundNested, compoundWith, hrun, ok_bind]
    simp only [hrun', ok_bind, if_neg hsome]

theorem Compound.Reread.takes_compound {compound : Compound} (h : compound.Reread cs front) :
    Takes Selector.compound compound front (Heads TokenKind.endsCompound) :=
  fun input kinds hinput hkinds =>
    h.takes (Input.length_le_of_kinds hinput) input kinds hinput hkinds

theorem reread_not {compound : Compound} (h : compound.Reread cs front) {before after : List Char}
    (hbefore : Blanks before) (hafter : Blanks after) :
    (Filter.not compound.element compound.filters).Reread
      (':' :: ("not".toList ++ '(' :: (before ++ (cs ++ (after ++ [')'])))))
      (.colon :: .function "not" ::
        (blankKinds before ++ (front ++ (blankKinds after ++ [.rightParen])))) := by
  refine ⟨opens_cons rfl _, opens_cons rfl _, fun {rest kinds} _ hlexes => ?_,
    fun {depth} hdepth input kinds hinput _ => ?_⟩
  · have hclose : Lexes (')' :: rest) (.rightParen :: kinds) := .single rfl hlexes
    have hcs := h.lexes (hafter.closes (heads_cons rfl _))
      (Lexes.blanks hafter (stops_cons rfl) hclose)
    have hword : IsBareName "not" := by decide +kernel
    have hinner := Lexes.token (hword.cuts_function _) (by decide +kernel)
      (Lexes.blanks hbefore (h.opens.stops_blank _) hcs)
    simpa using Lexes.single (c := ':') rfl hinner
  · simp only [List.cons_append, List.append_assoc, List.nil_append] at hinput
    simp only [List.length_cons, List.length_append] at hdepth
    -- The colon stands for the level of nesting that the parentheses take.
    obtain ⟨depth, rfl⟩ := Nat.exists_eq_add_of_le' (show 1 ≤ depth by omega)
    have hfunction := Input.advance_of_kinds hinput
    have hinner := Input.skipBlanks_of_kinds (Input.advance_of_kinds hfunction)
      (h.starts.append _).heads_blank
    obtain ⟨left, hrun, hleft⟩ := h.takes (show front.length ≤ depth by omega) _ _ hinner
      (heads_blankKinds rfl after (heads_cons rfl _))
    have hclose := Input.skipBlanks_of_kinds hleft (heads_cons rfl _)
    refine ⟨left.skipBlanks.advance, ?_, Input.advance_of_kinds hclose⟩
    have hnot : "nth-".isPrefixOf "not" = false := by decide +kernel
    rw [filter?, Input.current_of_kinds hinput]
    simp only [pseudoClass, Input.current_of_kinds hfunction, pseudoFunction, hnot,
      Bool.false_eq_true, if_false, if_true, hrun, ok_bind, Input.expect_of_kinds hclose]

end

mutual

theorem Filter.Spelled.exists_reread {f : Filter} {cs : List Char} (h : f.Spelled cs)
    (hlegible : f.Legible) : ∃ front, f.Reread cs front := by
  match h with
  | .className text =>
      exact ⟨_, reread_className hlegible⟩
  | .id text =>
      exact ⟨_, reread_id hlegible⟩
  | .attr h => exact h.exists_reread hlegible
  | .structural h => exact h.exists_reread
  | .not element hbefore hfilters hafter =>
      simp only [Filter.Legible] at hlegible
      obtain ⟨helement, hne, hall⟩ := hlegible
      obtain ⟨front, hfront⟩ := hfilters.exists_allReread hall
      have hinner := reread_compound helement hne hfront
      exact ⟨_, by simpa using reread_not hinner hbefore hafter⟩

theorem Filter.AllSpelled.exists_allReread {fs : List Filter} {cs : List Char}
    (h : Filter.AllSpelled fs cs) (hlegible : Filter.AllLegible fs) :
    ∃ front, Filter.AllReread fs cs front := by
  match h with
  | .nil => exact ⟨[], allReread_nil⟩
  | .cons hf hfs =>
      simp only [Filter.AllLegible] at hlegible
      obtain ⟨front, hfront⟩ := hf.exists_reread hlegible.1
      obtain ⟨behind, hbehind⟩ := hfs.exists_allReread hlegible.2
      exact ⟨front ++ behind, allReread_cons hfront hbehind⟩

end

theorem Compound.Spelled.exists_reread {compound : Compound} {cs : List Char}
    (h : compound.Spelled cs) (hlegible : compound.Legible) :
    ∃ front, compound.Reread cs front := by
  obtain ⟨element, hfilters⟩ := h
  obtain ⟨helement, hne, hall⟩ := hlegible
  obtain ⟨front, hfront⟩ := hfilters.exists_allReread hall
  exact ⟨_, reread_compound helement hne hfront⟩

/-! ## Chains -/

section
variable {before after rest : List Char} {kinds : List TokenKind}

/-- The tokens of a child combinator between blanks. -/
def childKinds (before after : List Char) : List TokenKind :=
  blankKinds before ++ .greater :: blankKinds after

theorem lexes_child (hbefore : Blanks before) (hafter : Blanks after) (hrest : Stops isBlank rest)
    (hlexes : Lexes rest kinds) :
    Lexes ((before ++ '>' :: after) ++ rest) (childKinds before after ++ kinds) := by
  have hgreater := Lexes.single (c := '>') rfl (Lexes.blanks hafter hrest hlexes)
  simpa [childKinds] using Lexes.blanks hbefore (stops_cons rfl) hgreater

theorem Input.skip_child {input : Input} (h : input.kinds = childKinds before after ++ kinds)
    (hkinds : Heads (· != .whitespace) kinds) :
    input.skipBlanks.current = .greater ∧ input.skipBlanks.advance.skipBlanks.kinds = kinds := by
  rw [childKinds, List.append_assoc] at h
  have hgreater := Input.skipBlanks_of_kinds h (heads_cons rfl _)
  exact ⟨current_of_kinds hgreater, skipBlanks_of_kinds (advance_of_kinds hgreater) hkinds⟩

end

/-- The text of a combinator is cut into tokens from which the combinator is read, in front of a
compound. -/
structure Combinator.Reread (combinator : Combinator) (cs : List Char) (front : List TokenKind) :
    Prop where
  closes : Opens isCloser cs
  ends : Opens TokenKind.endsCompound front
  lexes : ∀ {rest kinds}, Stops isBlank rest → Lexes rest kinds →
    Lexes (cs ++ rest) (front ++ kinds)
  takes : Takes combinator? (some combinator) front (Opens TokenKind.startsCompound)

theorem Combinator.Spelled.exists_reread {combinator : Combinator} {cs : List Char}
    (h : combinator.Spelled cs) : ∃ front, combinator.Reread cs front := by
  cases h with
  | descendant h hne =>
      obtain ⟨c, cs, rfl⟩ := List.exists_cons_of_ne_nil hne
      refine ⟨[.whitespace], opens_cons (h.isCloser c List.mem_cons_self) cs, opens_cons rfl [],
        fun hrest hlexes => Lexes.blanks h hrest hlexes, fun input kinds hinput hkinds => ?_⟩
      have hskip : input.skipBlanks.kinds = kinds :=
        @Input.skipBlanks_of_kinds _ _ [c] hinput hkinds.heads_blank
      refine ⟨input.skipBlanks.skipBlanks, ?_, Input.skipBlanks_of_heads hskip hkinds.heads_blank⟩
      obtain ⟨kind, more, rfl, hkind⟩ := hkinds
      rw [combinator?]
      simp only [Input.current_of_kinds hinput, Input.current_of_kinds hskip, if_true]
      cases kind <;> first | rfl | cases hkind
  | @child before after hbefore hafter =>
      refine ⟨childKinds before after, opens_append hbefore.isCloser (opens_cons rfl after),
        opens_append (of_mem_blankKinds rfl) (opens_cons rfl _),
        fun hrest hlexes => lexes_child hbefore hafter hrest hlexes,
        fun input kinds hinput hkinds => ?_⟩
      obtain ⟨hgreater, hleft⟩ := Input.skip_child hinput hkinds.heads_blank
      refine ⟨input.skipBlanks.advance.skipBlanks, ?_, hleft⟩
      rw [combinator?]
      simp only [hgreater]

/-- The same for what follows the first compound of a chain. Blanks may stand behind it, and either
the parser skips them or whoever called it. -/
structure TailReread (tail : List (Combinator × Compound)) (cs : List Char)
    (front : List TokenKind) : Prop where
  closes : ∀ {rest}, Closes rest → Closes (cs ++ rest)
  ends : ∀ {kinds}, Heads TokenKind.endsCompound kinds →
    Heads TokenKind.endsCompound (front ++ kinds)
  lexes : ∀ {rest kinds}, Closes rest → Lexes rest kinds → Lexes (cs ++ rest) (front ++ kinds)
  takes : ∀ {rounds}, front.length ≤ rounds → ∀ {input : Input} {after kinds},
    input.kinds = front ++ (blankKinds after ++ kinds) → Heads (· == .comma) kinds →
      ∃ left, tailFrom rounds input = .ok (tail, left) ∧ left.skipBlanks.kinds = kinds

theorem TailReread.heads {tail : List (Combinator × Compound)} {cs : List Char}
    {front kinds : List TokenKind} (h : TailReread tail cs front) (after : List Char)
    (hkinds : Heads (· == .comma) kinds) :
    Heads TokenKind.endsCompound (front ++ (blankKinds after ++ kinds)) :=
  h.ends (heads_blankKinds rfl after (hkinds.of_beq rfl))

theorem tailReread_nil : TailReread [] [] [] := by
  refine ⟨id, id, fun _ => id, fun {rounds} _ input after kinds hinput hkinds => ?_⟩
  have hskip : input.skipBlanks.kinds = kinds :=
    Input.skipBlanks_of_kinds hinput (hkinds.of_beq rfl)
  cases rounds with
  | zero => exact ⟨input, rfl, hskip⟩
  | succ rounds =>
      have hnone : combinator? input = .ok (none, input.skipBlanks) := by
        rw [combinator?]
        simp only [Input.current_eq input.skipBlanks, hskip]
        cases kinds with
        | nil => rfl
        | cons kind kinds =>
            obtain rfl : kind = .comma := beq_iff_eq.mp (hkinds kind rfl)
            rfl
      refine ⟨input.skipBlanks, ?_, Input.skipBlanks_of_heads hskip (hkinds.of_beq rfl)⟩
      rw [tailFrom, hnone, ok_bind]

theorem tailReread_cons {combinator : Combinator} {compound : Compound}
    {tail : List (Combinator × Compound)} {cs ds es : List Char}
    {front middle behind : List TokenKind} (hcombinator : combinator.Reread cs front)
    (hcompound : compound.Reread ds middle) (htail : TailReread tail es behind) :
    TailReread ((combinator, compound) :: tail) (cs ++ (ds ++ es))
      (front ++ (middle ++ behind)) := by
  refine ⟨fun _ => ((hcombinator.closes.append _).append _).heads,
    fun _ => ((hcombinator.ends.append _).append _).heads, fun {rest kinds} hrest hlexes => ?_,
    fun {rounds} hrounds input after kinds hinput hkinds => ?_⟩
  · have hbehind := hcompound.lexes (htail.closes hrest) (htail.lexes hrest hlexes)
    simpa using hcombinator.lexes (hcompound.opens.stops_blank _) hbehind
  · simp only [List.append_assoc] at hinput
    simp only [List.length_append] at hrounds
    have hlength := hcombinator.ends.length_pos
    obtain ⟨rounds, rfl⟩ := Nat.exists_eq_add_of_le' (show 1 ≤ rounds by omega)
    obtain ⟨left₁, hrun₁, hleft₁⟩ :=
      hcombinator.takes _ _ hinput (hcompound.starts.append _)
    obtain ⟨left₂, hrun₂, hleft₂⟩ :=
      hcompound.takes_compound _ _ hleft₁ (htail.heads after hkinds)
    obtain ⟨left₃, hrun₃, hleft₃⟩ :=
      htail.takes (show behind.length ≤ rounds by omega) hleft₂ hkinds
    refine ⟨left₃, ?_, hleft₃⟩
    rw [tailFrom, hrun₁, ok_bind]
    simp only [hrun₂, hrun₃, ok_bind]

theorem TailSpelled.exists_reread {tail : List (Combinator × Compound)} {cs : List Char}
    (h : TailSpelled tail cs) (hlegible : ∀ next ∈ tail, next.2.Legible) :
    ∃ front, TailReread tail cs front := by
  induction h with
  | nil => exact ⟨[], tailReread_nil⟩
  | cons hcombinator hcompound _ ih =>
      obtain ⟨hnext, hrest⟩ := List.forall_mem_cons.mp hlegible
      obtain ⟨front, hfront⟩ := hcombinator.exists_reread
      obtain ⟨middle, hmiddle⟩ := hcompound.exists_reread hnext
      obtain ⟨behind, hbehind⟩ := ih hrest
      exact ⟨_, tailReread_cons hfront hmiddle hbehind⟩

/-! ## Lists -/

/-- The first step into a selector of a list, over blanks and a child combinator. -/
def Input.enter (input : Input) : Input :=
  if input.current = .greater then input.advance.skipBlanks else input

theorem LeadSpelled.exists_reread {lead : List Char} (h : LeadSpelled lead) :
    ∃ front, (∀ {rest : List Char} {kinds : List TokenKind}, Stops isBlank rest →
        Lexes rest kinds → Lexes (lead ++ rest) (front ++ kinds)) ∧
      ∀ {input : Input} {kinds : List TokenKind}, input.kinds = front ++ kinds →
        Opens TokenKind.startsCompound kinds → input.skipBlanks.enter.kinds = kinds := by
  cases h with
  | blanks h =>
      refine ⟨blankKinds lead, fun hrest hlexes => Lexes.blanks h hrest hlexes,
        fun {input kinds} hinput hkinds => ?_⟩
      have hskip := Input.skipBlanks_of_kinds hinput hkinds.heads_blank
      have hcurrent := Input.current_ne hskip (hkinds.heads.ne (x := .greater) rfl) nofun
      rw [Input.enter, if_neg hcurrent, hskip]
  | @child before after hbefore hafter =>
      refine ⟨childKinds before after,
        fun hrest hlexes => lexes_child hbefore hafter hrest hlexes,
        fun {input kinds} hinput hkinds => ?_⟩
      obtain ⟨hgreater, hleft⟩ := Input.skip_child hinput hkinds.heads_blank
      rw [Input.enter, if_pos hgreater, hleft]

/-- The text of a selector of a list is cut into tokens from which the selector is read, in front of
a comma or the end. -/
structure PartReread (selector : Complex) (cs : List Char) (front : List TokenKind) : Prop where
  lexes : ∀ {rest kinds}, Heads (· == ',') rest → Lexes rest kinds →
    Lexes (cs ++ rest) (front ++ kinds)
  takes : ∀ {input : Input} {kinds : List TokenKind}, input.kinds = front ++ kinds →
    Heads (· == .comma) kinds →
    ∃ left, complex input.skipBlanks = .ok (selector, left) ∧ left.skipBlanks.kinds = kinds

theorem PartSpelled.exists_reread {selector : Complex} {cs : List Char}
    (h : PartSpelled selector cs) (hlegible : selector.Legible) :
    ∃ front, PartReread selector cs front := by
  obtain @⟨lead, _, after, hlead, ⟨hhead, htail⟩, hafter⟩ := h
  obtain ⟨front, hlexes, henter⟩ := hlead.exists_reread
  obtain ⟨middle, hmiddle⟩ := hhead.exists_reread hlegible.1
  obtain ⟨behind, hbehind⟩ := htail.exists_reread hlegible.2
  refine ⟨front ++ (middle ++ (behind ++ blankKinds after)), fun {rest kinds} hrest hrest' => ?_,
    fun {input kinds} hinput hkinds => ?_⟩
  · have hstops : Stops isBlank rest := fun c hc => by
      rw [beq_iff_eq.mp (hrest c hc)]
      rfl
    have hcloses : Closes (after ++ rest) := hafter.closes (hrest.of_beq rfl)
    have hcs := hmiddle.lexes (hbehind.closes hcloses)
      (hbehind.lexes hcloses (Lexes.blanks hafter hstops hrest'))
    simpa using hlexes (hmiddle.opens.stops_blank _) hcs
  · simp only [List.append_assoc] at hinput
    have hinput' := henter hinput (hmiddle.starts.append _)
    obtain ⟨left, hrun, hleft⟩ :=
      hmiddle.takes_compound _ _ hinput' (hbehind.heads after hkinds)
    have hrounds : behind.length ≤ left.ahead.length + 1 :=
      Nat.le_succ_of_le (Input.length_le_of_kinds hleft)
    obtain ⟨left', hrun', hleft'⟩ := hbehind.takes hrounds hleft hkinds
    refine ⟨left', ?_, hleft'⟩
    rw [Input.enter] at hrun
    simp only [complex, hrun, hrun', ok_bind]

theorem Spelled.exists_lexes {selectors : SelectorList} {cs : List Char} (h : Spelled selectors cs)
    (hlegible : ∀ selector ∈ selectors, selector.Legible) :
    ∃ kinds, Lexes cs kinds ∧ ∀ {rounds : Nat} {input : Input}, kinds.length < rounds →
      input.kinds = kinds → listFrom rounds input = .ok selectors := by
  induction h with
  | single h =>
      obtain ⟨front, hlexes, htakes⟩ := h.exists_reread (List.forall_mem_singleton.mp hlegible)
      refine ⟨front, ?_, fun {rounds input} hrounds hinput => ?_⟩
      · have hcs := @hlexes [] [] nofun .nil
        rwa [List.append_nil, List.append_nil] at hcs
      · obtain ⟨rounds, rfl⟩ := Nat.exists_eq_add_of_le' (Nat.zero_lt_of_lt hrounds)
        rw [← List.append_nil front] at hinput
        obtain ⟨left, hrun, hleft⟩ := htakes hinput nofun
        have hend : left.skipBlanks.current = .eof := by
          rw [Input.current_eq, hleft]
          rfl
        rw [listFrom, hrun, ok_bind]
        simp only [hend]
  | @cons selector selectors cs ds h _ ih =>
      obtain ⟨hselector, hselectors⟩ := List.forall_mem_cons.mp hlegible
      obtain ⟨front, hlexes, htakes⟩ := h.exists_reread hselector
      obtain ⟨kinds, hkinds, hlist⟩ := ih hselectors
      refine ⟨front ++ .comma :: kinds, hlexes (heads_cons rfl _) (.single rfl hkinds),
        fun {rounds input} hrounds hinput => ?_⟩
      rw [List.length_append, List.length_cons] at hrounds
      obtain ⟨rounds, rfl⟩ := Nat.exists_eq_add_of_le' (show 1 ≤ rounds by omega)
      obtain ⟨left, hrun, hleft⟩ := htakes hinput (heads_cons rfl _)
      rw [listFrom, hrun, ok_bind]
      simp only [Input.current_of_kinds hleft,
        hlist (show kinds.length < rounds by omega) (Input.advance_of_kinds hleft), ok_bind]

/-- Every legible list has texts, and each of them is parsed as the list. -/
theorem parse_of_spelled {selectors : SelectorList} (h : Legible selectors) :
    (∃ text : String, Spelled selectors text.toList) ∧
      ∀ text : String, Spelled selectors text.toList → parse text = .ok selectors := by
  refine ⟨?_, fun text htext => ?_⟩
  · obtain ⟨cs, hcs⟩ := exists_spelled h
    exact ⟨String.ofList cs, String.toList_ofList.symm ▸ hcs⟩
  obtain ⟨kinds, hlexes, hlist⟩ := htext.exists_lexes h.2
  obtain ⟨input, hinput, hkinds⟩ := Input.ofText_of_lexes hlexes
  have hrounds : kinds.length < input.ahead.length + 1 := by
    rw [← Input.length_kinds, hkinds]
    exact Nat.lt_succ_self _
  rw [parse, hinput, ok_bind]
  exact hlist hrounds hkinds

theorem parse_of_spelled_not :
    Legible [⟨⟨some ⟨none, .name "a"⟩, []⟩,
        [(.descendant, ⟨none, [.not none [.attr ⟨none, "b", some (.equals, "c")⟩]]⟩)]⟩] ∧
      parse " >a :not( [b= 'c' ]) " =
        .ok [⟨⟨some ⟨none, .name "a"⟩, []⟩,
          [(.descendant, ⟨none, [.not none [.attr ⟨none, "b", some (.equals, "c")⟩]]⟩)]⟩] := by
  have hspace : Blanks [' '] := by decide +kernel
  have hattr : AttrSelector.Spelled ⟨none, "b", some (.equals, "c")⟩ "[b= 'c' ]".toList :=
    .intro blanks_nil blanks_nil (.present .equals hspace (.quoted (.inr rfl) (by decide)) hspace)
  have hnot : Filter.Spelled (.not none [.attr ⟨none, "b", some (.equals, "c")⟩])
      ":not( [b= 'c' ])".toList := .not none hspace (.cons (.attr hattr) .nil) blanks_nil
  have hchain : Complex.Spelled ⟨⟨some ⟨none, .name "a"⟩, []⟩,
      [(.descendant, ⟨none, [.not none [.attr ⟨none, "b", some (.equals, "c")⟩]]⟩)]⟩
      "a :not( [b= 'c' ])".toList :=
    .intro (.intro _ .nil)
      (.cons (.descendant hspace (List.cons_ne_nil _ _)) (.intro none (.cons hnot .nil)) .nil)
  have hlegible : Legible [⟨⟨some ⟨none, .name "a"⟩, []⟩,
      [(.descendant, ⟨none, [.not none [.attr ⟨none, "b", some (.equals, "c")⟩]]⟩)]⟩] := by
    refine ⟨List.cons_ne_nil _ _, List.forall_mem_singleton.mpr ⟨⟨?_, .inl nofun, trivial⟩,
      List.forall_mem_singleton.mpr ⟨nofun, .inr nofun, ⟨nofun, .inr nofun, ?_, trivial⟩, trivial⟩⟩⟩
    · rintro type ⟨⟩
      exact ⟨nofun, (by decide +kernel : IsBareName "a")⟩
    · refine ⟨nofun, by decide +kernel, ?_⟩
      rintro op value ⟨⟩
      decide
  exact ⟨hlegible, (parse_of_spelled hlegible).2 _
    (.single (.intro (.child hspace blanks_nil) hchain hspace))⟩

end TreeQuery.Selector
