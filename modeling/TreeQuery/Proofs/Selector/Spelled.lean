import TreeQuery.Proofs.Selector.Series

/-!
The texts of selectors: where blanks may stand, how values are quoted, and how a series of positions
is written. A list of selectors has many texts; `exists_spelled` says which lists have one.
-/
namespace TreeQuery.Selector

open TreeQuery.Text

/-! ## Names and blanks -/

/-- A name that stands by itself: it has no blank, not even one beyond ASCII. -/
def IsBareName (text : String) : Prop := IsIdent text ∧ ∀ c ∈ text.toList, isBlank c = false

instance (text : String) : Decidable (IsBareName text) :=
  decidable_of_iff (text ≠ "" ∧ (text.toList.all fun c => isIdentChar c && !isBlank c) = true) (by
    simp [IsBareName, IsIdent, and_assoc, forall_and])

/-- White space of ASCII, or nothing. -/
def Blanks (cs : List Char) : Prop := ∀ c ∈ cs, isBlank c = true ∧ c.toNat < 128

instance (cs : List Char) : Decidable (Blanks cs) :=
  decidable_of_iff ((cs.all fun c => isBlank c && decide (c.toNat < 128)) = true) (by simp [Blanks])

theorem blanks_nil : Blanks [] := fun _ hc => by cases hc

def NamePart.text : NamePart → List Char
  | .any => ['*']
  | .name text => text.toList

def prefixText : Option NamePart → List Char
  | none => []
  | some pfx => pfx.text ++ ['|']

def TypeSelector.text (type : TypeSelector) : List Char := prefixText type.pfx ++ type.name.text

def elementText : Option TypeSelector → List Char
  | none => []
  | some type => type.text

/-! ## Attributes -/

def AttrOp.text : AttrOp → List Char
  | .equals => ['=']
  | .includes => ['~', '=']
  | .dashMatch => ['|', '=']
  | .startsWith => ['^', '=']
  | .endsWith => ['$', '=']
  | .contains => ['*', '=']

/-- The text that an attribute is compared with: bare if it is a name, or in quotes of a kind that it
lacks. -/
inductive ValueSpelled (value : String) : List Char → Prop where
  | bare (h : IsBareName value) : ValueSpelled value value.toList
  | quoted {quote : Char} (hquote : quote = '\"' ∨ quote = '\x27') (h : quote ∉ value.toList) :
      ValueSpelled value (quote :: (value.toList ++ [quote]))

inductive ComparisonSpelled : Option (AttrOp × String) → List Char → Prop where
  | absent : ComparisonSpelled none []
  | present (op : AttrOp) {value : String} {before cs after : List Char} (hbefore : Blanks before)
      (hvalue : ValueSpelled value cs) (hafter : Blanks after) :
      ComparisonSpelled (some (op, value)) (op.text ++ (before ++ (cs ++ after)))

inductive AttrSelector.Spelled : AttrSelector → List Char → Prop where
  | intro {pfx : Option NamePart} {name : String} {comparison : Option (AttrOp × String)}
      {before after cs : List Char} (hbefore : Blanks before) (hafter : Blanks after)
      (hcomparison : ComparisonSpelled comparison cs) :
      AttrSelector.Spelled ⟨pfx, name, comparison⟩
        ('[' :: (before ++ (prefixText pfx ++ (name.toList ++ (after ++ (cs ++ [']']))))))

/-! ## Filters and compounds -/

def NthKind.title : NthKind → String
  | .child => "nth-child"
  | .lastChild => "nth-last-child"
  | .ofType => "nth-of-type"
  | .lastOfType => "nth-last-of-type"

def Structural.title : Structural → String
  | .root => "root"
  | .empty => "empty"
  | .firstChild => "first-child"
  | .lastChild => "last-child"
  | .onlyChild => "only-child"
  | .firstOfType => "first-of-type"
  | .lastOfType => "last-of-type"
  | .onlyOfType => "only-of-type"
  | .nth kind _ => kind.title

/-- A condition on the place of an element. Blanks and capital letters in the text of a series do
not matter. -/
inductive Structural.Spelled : Structural → List Char → Prop where
  | plain {condition : Structural} (h : ∀ kind series, condition ≠ .nth kind series) :
      Structural.Spelled condition (':' :: condition.title.toList)
  | nth (kind : NthKind) {series : Nth} {cs : List Char}
      (hseries : Nth.Spelled (Nth.fold cs) series) :
      Structural.Spelled (.nth kind series) (':' :: (kind.title.toList ++ '(' :: (cs ++ [')'])))

mutual

inductive Filter.Spelled : Filter → List Char → Prop where
  | className (text : String) : Filter.Spelled (.className text) ('.' :: text.toList)
  | id (text : String) : Filter.Spelled (.id text) ('#' :: text.toList)
  | attr {selector : AttrSelector} {cs : List Char} (h : selector.Spelled cs) :
      Filter.Spelled (.attr selector) cs
  | structural {condition : Structural} {cs : List Char} (h : condition.Spelled cs) :
      Filter.Spelled (.structural condition) cs
  | not (element : Option TypeSelector) {filters : List Filter} {before cs after : List Char}
      (hbefore : Blanks before) (hfilters : Filter.AllSpelled filters cs) (hafter : Blanks after) :
      Filter.Spelled (.not element filters)
        (':' :: ("not".toList ++ '(' :: (before ++ (elementText element ++ (cs ++ (after ++ [')']))))))

inductive Filter.AllSpelled : List Filter → List Char → Prop where
  | nil : Filter.AllSpelled [] []
  | cons {f : Filter} {fs : List Filter} {cs ds : List Char} (hf : f.Spelled cs)
      (hfs : Filter.AllSpelled fs ds) : Filter.AllSpelled (f :: fs) (cs ++ ds)

end

inductive Compound.Spelled : Compound → List Char → Prop where
  | intro (element : Option TypeSelector) {filters : List Filter} {cs : List Char}
      (hfilters : Filter.AllSpelled filters cs) :
      Compound.Spelled ⟨element, filters⟩ (elementText element ++ cs)

/-! ## Chains and lists -/

inductive Combinator.Spelled : Combinator → List Char → Prop where
  | descendant {cs : List Char} (h : Blanks cs) (hne : cs ≠ []) : Combinator.Spelled .descendant cs
  | child {before after : List Char} (hbefore : Blanks before) (hafter : Blanks after) :
      Combinator.Spelled .child (before ++ '>' :: after)

inductive TailSpelled : List (Combinator × Compound) → List Char → Prop where
  | nil : TailSpelled [] []
  | cons {combinator : Combinator} {compound : Compound} {tail : List (Combinator × Compound)}
      {cs ds es : List Char} (hcombinator : combinator.Spelled cs) (hcompound : compound.Spelled ds)
      (htail : TailSpelled tail es) :
      TailSpelled ((combinator, compound) :: tail) (cs ++ (ds ++ es))

inductive Complex.Spelled : Complex → List Char → Prop where
  | intro {head : Compound} {tail : List (Combinator × Compound)} {cs ds : List Char}
      (hhead : head.Spelled cs) (htail : TailSpelled tail ds) :
      Complex.Spelled ⟨head, tail⟩ (cs ++ ds)

/-- What may stand in front of a selector of a list: blanks, or a child combinator between them. -/
inductive LeadSpelled : List Char → Prop where
  | blanks {cs : List Char} (h : Blanks cs) : LeadSpelled cs
  | child {before after : List Char} (hbefore : Blanks before) (hafter : Blanks after) :
      LeadSpelled (before ++ '>' :: after)

inductive PartSpelled : Complex → List Char → Prop where
  | intro {selector : Complex} {lead cs after : List Char} (hlead : LeadSpelled lead)
      (h : selector.Spelled cs) (hafter : Blanks after) :
      PartSpelled selector (lead ++ (cs ++ after))

/-- Selectors with commas between them. -/
inductive Spelled : SelectorList → List Char → Prop where
  | single {selector : Complex} {cs : List Char} (h : PartSpelled selector cs) :
      Spelled [selector] cs
  | cons {selector : Complex} {selectors : SelectorList} {cs ds : List Char}
      (h : PartSpelled selector cs) (hselectors : Spelled selectors ds) :
      Spelled (selector :: selectors) (cs ++ ',' :: ds)

/-! ## Lists that have a text -/

def NamePart.Legible : NamePart → Prop
  | .any => True
  | .name text => IsBareName text

def PrefixLegible (pfx : Option NamePart) : Prop := ∀ part, pfx = some part → part.Legible

def ElementLegible (element : Option TypeSelector) : Prop :=
  ∀ type, element = some type → PrefixLegible type.pfx ∧ type.name.Legible

/-- The value lacks one of the quotes. -/
def AttrSelector.Legible (selector : AttrSelector) : Prop :=
  PrefixLegible selector.pfx ∧ IsBareName selector.name ∧
    ∀ op value, selector.comparison = some (op, value) →
      '\"' ∉ value.toList ∨ '\x27' ∉ value.toList

mutual

/-- All names in a filter stand by themselves, no value has both quotes, and coefficients have 32
bits. -/
def Filter.Legible : Filter → Prop
  | .className text | .id text => IsBareName text
  | .attr selector => selector.Legible
  | .structural condition => condition.Lexed
  | .not element filters =>
    ElementLegible element ∧ (element ≠ none ∨ filters ≠ []) ∧ Filter.AllLegible filters

def Filter.AllLegible : List Filter → Prop
  | [] => True
  | f :: fs => f.Legible ∧ Filter.AllLegible fs

end

/-- There is a name or a filter, and all of them are legible. -/
def Compound.Legible (compound : Compound) : Prop :=
  ElementLegible compound.element ∧ (compound.element ≠ none ∨ compound.filters ≠ []) ∧
    Filter.AllLegible compound.filters

def Complex.Legible (selector : Complex) : Prop :=
  selector.head.Legible ∧ ∀ next ∈ selector.tail, next.2.Legible

def Legible (selectors : SelectorList) : Prop :=
  selectors ≠ [] ∧ ∀ selector ∈ selectors, selector.Legible

/-! ### Each has one -/

theorem AttrSelector.exists_spelled {selector : AttrSelector} (h : selector.Legible) :
    ∃ cs, selector.Spelled cs := by
  obtain ⟨pfx, name, comparison⟩ := selector
  cases comparison with
  | none => exact ⟨_, .intro blanks_nil blanks_nil .absent⟩
  | some entry =>
      obtain ⟨op, value⟩ := entry
      obtain ⟨cs, hcs⟩ : ∃ cs, ValueSpelled value cs := by
        rcases h.2.2 op value rfl with hquote | hquote
        · exact ⟨_, .quoted (.inl rfl) hquote⟩
        · exact ⟨_, .quoted (.inr rfl) hquote⟩
      exact ⟨_, .intro blanks_nil blanks_nil (.present op blanks_nil hcs blanks_nil)⟩

theorem Structural.exists_spelled {condition : Structural} (h : condition.Lexed) :
    ∃ cs, condition.Spelled cs := by
  cases condition with
  | nth kind series => exact ⟨_, .nth kind (Nth.spelled_text h.1 h.2)⟩
  | _ => exact ⟨_, .plain nofun⟩

mutual

theorem Filter.exists_spelled : (f : Filter) → f.Legible → ∃ cs, f.Spelled cs
  | .className text, _ => ⟨_, .className text⟩
  | .id text, _ => ⟨_, .id text⟩
  | .attr selector, h => by
      simp only [Filter.Legible] at h
      obtain ⟨cs, hcs⟩ := AttrSelector.exists_spelled h
      exact ⟨cs, .attr hcs⟩
  | .structural condition, h => by
      simp only [Filter.Legible] at h
      obtain ⟨cs, hcs⟩ := Structural.exists_spelled h
      exact ⟨cs, .structural hcs⟩
  | .not element filters, h => by
      simp only [Filter.Legible] at h
      obtain ⟨cs, hcs⟩ := Filter.exists_allSpelled filters h.2.2
      exact ⟨_, .not element blanks_nil hcs blanks_nil⟩

theorem Filter.exists_allSpelled :
    (fs : List Filter) → Filter.AllLegible fs → ∃ cs, Filter.AllSpelled fs cs
  | [], _ => ⟨[], .nil⟩
  | f :: fs, h => by
      simp only [Filter.AllLegible] at h
      obtain ⟨cs, hcs⟩ := Filter.exists_spelled f h.1
      obtain ⟨ds, hds⟩ := Filter.exists_allSpelled fs h.2
      exact ⟨cs ++ ds, .cons hcs hds⟩

end

theorem Compound.exists_spelled {compound : Compound} (h : compound.Legible) :
    ∃ cs, compound.Spelled cs := by
  obtain ⟨cs, hcs⟩ := Filter.exists_allSpelled compound.filters h.2.2
  exact ⟨_, .intro compound.element hcs⟩

theorem exists_tailSpelled {tail : List (Combinator × Compound)}
    (h : ∀ next ∈ tail, next.2.Legible) : ∃ cs, TailSpelled tail cs := by
  induction tail with
  | nil => exact ⟨[], .nil⟩
  | cons next tail ih =>
      obtain ⟨hnext, htail⟩ := List.forall_mem_cons.mp h
      obtain ⟨ds, hds⟩ := Compound.exists_spelled hnext
      obtain ⟨es, hes⟩ := ih htail
      obtain ⟨cs, hcs⟩ : ∃ cs, next.1.Spelled cs := by
        cases next.1 with
        | descendant => exact ⟨[' '], .descendant (by decide +kernel) (List.cons_ne_nil _ _)⟩
        | child => exact ⟨_, .child blanks_nil blanks_nil⟩
      exact ⟨_, .cons hcs hds hes⟩

theorem exists_partSpelled {selector : Complex} (h : selector.Legible) :
    ∃ cs, PartSpelled selector cs := by
  obtain ⟨cs, hcs⟩ := Compound.exists_spelled h.1
  obtain ⟨ds, hds⟩ := exists_tailSpelled h.2
  exact ⟨_, .intro (.blanks blanks_nil) (.intro hcs hds) blanks_nil⟩

theorem exists_spelled {selectors : SelectorList} (h : Legible selectors) :
    ∃ cs, Spelled selectors cs := by
  obtain ⟨hne, hlegible⟩ := h
  induction selectors with
  | nil => exact absurd rfl hne
  | cons selector selectors ih =>
      obtain ⟨hselector, hselectors⟩ := List.forall_mem_cons.mp hlegible
      obtain ⟨cs, hcs⟩ := exists_partSpelled hselector
      cases selectors with
      | nil => exact ⟨cs, .single hcs⟩
      | cons next selectors =>
          obtain ⟨ds, hds⟩ := ih (List.cons_ne_nil _ _) hselectors
          exact ⟨cs ++ ',' :: ds, .cons hcs hds⟩

end TreeQuery.Selector
