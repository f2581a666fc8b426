import TreeQuery.Proofs.Outcome
import TreeQuery.Selector.Parser

/-!
What a selector that is read from a text carries comes from tokens that the lexer cuts. The parsers
keep this from what they have in front to what they read and leave behind.
-/
namespace TreeQuery.Selector

open TreeQuery.Text (isBlank)

/-! ## Tokens -/

/-- A name as the lexer cuts it. -/
def IsIdent (text : String) : Prop := text ≠ "" ∧ ∀ c ∈ text.toList, isIdentChar c = true

/-- A kind of token as the lexer cuts it. A string lacks the quote that it stood between. -/
def TokenKind.Lexed : TokenKind → Prop
  | ident text | hash text | function text => IsIdent text
  | string text => '\"' ∉ text.toList ∨ '\x27' ∉ text.toList
  | _ => True

theorem lexed_singles : ∀ single ∈ singles, single.2.Lexed := by
  simp [singles, TokenKind.Lexed]

theorem lexed_comparisons : ∀ entry ∈ comparisons,
    entry.2.1.Lexed ∧ ∀ alone, entry.2.2 = some alone → alone.Lexed := by
  simp [comparisons, TokenKind.Lexed]

theorem isIdent_identAt {cs : List Char} (h : identAt cs ≠ []) :
    IsIdent (String.ofList (identAt cs)) := by
  refine ⟨fun hempty => h (by simpa using congrArg String.toList hempty), fun c hc => ?_⟩
  rw [String.toList_ofList] at hc
  exact List.all_eq_true.mp List.all_takeWhile c hc

theorem lexed_wordAt {c : Char} {cs : List Char} (h : isIdentChar c = true) :
    (wordAt (c :: cs)).1.Lexed := by
  have hne : identAt (c :: cs) ≠ [] := by
    rw [identAt, List.takeWhile_cons_of_pos h]
    exact List.cons_ne_nil _ _
  rw [wordAt]
  split <;> exact isIdent_identAt hne

theorem lexed_stringAt {quote : Char} (hquote : quote = '\"' ∨ quote = '\x27') {cs : List Char}
    {kind : TokenKind} {width : Nat} (h : stringAt quote cs = .ok (kind, width)) : kind.Lexed := by
  have hlacks : quote ∉ (String.ofList (cs.takeWhile (· != quote))).toList := by
    rw [String.toList_ofList]
    intro hmem
    simpa using List.all_eq_true.mp List.all_takeWhile quote hmem
  rw [stringAt] at h
  split at h
  · cases h
    rcases hquote with rfl | rfl
    · exact .inl hlacks
    · exact .inr hlacks
  · cases h

theorem lexed_lexeme {c : Char} {cs : List Char} {kind : TokenKind} {width : Nat}
    (h : lexeme c cs = .ok (kind, width)) : kind.Lexed := by
  rw [lexeme] at h
  split at h
  · cases h
    trivial
  · split at h
    · rename_i hsingle
      cases h
      exact lexed_singles _ (mem_of_lookup hsingle)
    · rename_i hcomparison
      have hentry := lexed_comparisons _ (mem_of_lookup hcomparison)
      split at h
      · cases h
        exact hentry.1
      · split at h
        · cases h
          exact hentry.2 _ rfl
        · cases h
    · split at h
      · rw [hashAt] at h
        split at h
        · cases h
        · rename_i hname
          cases h
          exact isIdent_identAt (by simpa using hname)
      · split at h
        · rename_i hquote
          exact lexed_stringAt (by simpa using hquote) h
        · split at h
          · rename_i hident
            have hkind : (wordAt (c :: cs)).1 = kind := congrArg Prod.fst (Except.ok.inj h)
            exact hkind ▸ lexed_wordAt hident
          · cases h

theorem lexed_scan {rounds : Nat} {raw : Bool} {place : Text.Place} {cs : List Char}
    {tokens : List Token} (h : scan rounds raw place cs = .ok tokens) :
    ∀ token ∈ tokens, token.kind.Lexed := by
  induction rounds generalizing raw place cs tokens with
  | zero =>
      rw [scan] at h
      cases h
      exact List.forall_mem_singleton.mpr trivial
  | succ rounds ih =>
      cases raw with
      | true =>
          simp only [scan, bind_eq_ok_iff, Except.ok.injEq] at h
          obtain ⟨rest, hrest, rfl⟩ := h
          exact List.forall_mem_cons.mpr ⟨trivial, ih hrest⟩
      | false =>
          cases cs with
          | nil =>
              simp only [scan] at h
              cases h
              exact List.forall_mem_singleton.mpr trivial
          | cons c cs =>
              rw [scan] at h
              split at h
              · cases h
              · rename_i hlexeme
                simp only [bind_eq_ok_iff, Except.ok.injEq] at h
                obtain ⟨rest, hrest, rfl⟩ := h
                exact List.forall_mem_cons.mpr ⟨lexed_lexeme hlexeme, ih hrest⟩

/-! ## Series of positions -/

namespace Nth

theorem inRange_of_signed? {cs : List Char} {i : Int} (h : signed? cs = some i) :
    inRange i = true := (Option.filter_eq_some_iff.mp h).2

theorem inRange_of_factor? {cs : List Char} {i : Int} (h : factor? cs = some i) :
    inRange i = true := by
  rw [factor?.eq_def] at h
  split at h
  · cases h; rfl
  · cases h; rfl
  · cases h; rfl
  · exact inRange_of_signed? h

theorem inRange_of_offset? {cs : List Char} {i : Int} (h : offset? cs = some i) :
    inRange i = true := by
  rw [offset?.eq_def] at h
  split at h
  · cases h; rfl
  · exact inRange_of_signed? h
  · exact inRange_of_signed? h
  · cases h

theorem inRange_of_parse? {text : String} {series : Nth} (h : parse? text = some series) :
    inRange series.a = true ∧ inRange series.b = true := by
  rw [parse?, ofChars?] at h
  split at h
  · cases h; exact ⟨rfl, rfl⟩
  · split at h
    · cases h; exact ⟨rfl, rfl⟩
    · split at h
      · obtain ⟨b, hb, rfl⟩ := Option.map_eq_some_iff.mp h
        exact ⟨rfl, inRange_of_signed? hb⟩
      · simp only [Option.bind_eq_bind, Option.bind_eq_some_iff, Option.some.injEq] at h
        obtain ⟨a, ha, b, hb, rfl⟩ := h
        exact ⟨inRange_of_factor? ha, inRange_of_offset? hb⟩

theorem natAbs_le_of_inRange {i : Int} (h : inRange i = true) :
    i.natAbs ≤ Nat.pow 2 53 := by
  simp only [inRange, Bool.and_eq_true, decide_eq_true_eq] at h
  have hpow : 2147483648 ≤ Nat.pow 2 53 := by decide
  omega

end Nth

/-! ## Inputs -/

namespace Input

/-- The lexer has cut the tokens in front. -/
def Lexed (input : Input) : Prop := ∀ token ∈ input.ahead, token.kind.Lexed

variable {input rest : Input}

theorem lexed_ofText {text : String} (h : ofText text = .ok input) : input.Lexed := by
  simp only [ofText, bind_eq_ok_iff, Except.ok.injEq] at h
  obtain ⟨tokens, htokens, rfl⟩ := h
  exact fun token htoken => lexed_scan htokens token (List.mem_filter.mp htoken).1

theorem Lexed.advance (h : input.Lexed) : input.advance.Lexed :=
  fun token htoken => h token (List.mem_of_mem_tail htoken)

theorem Lexed.skipBlanks (h : input.Lexed) : input.skipBlanks.Lexed :=
  fun token htoken => h token ((List.dropWhile_sublist _).subset htoken)

theorem Lexed.current (h : input.Lexed) : input.current.Lexed := by
  rw [Input.current]
  cases hhead : input.ahead.head? with
  | none => trivial
  | some token => exact h token (List.mem_of_head? hhead)

theorem Lexed.expect (h : input.Lexed) {kind : TokenKind} {what : String}
    (hrun : input.expect kind what = .ok rest) : rest.Lexed := by
  rw [Input.expect] at hrun
  split at hrun
  · cases hrun
    exact h.advance
  · simp [Input.fail] at hrun

end Input

/-! ## Filters and compounds -/

/-- The text that an attribute is compared with is that of a token. -/
def AttrSelector.Lexed (selector : AttrSelector) : Prop :=
  ∀ op text, selector.comparison = some (op, text) →
    TokenKind.Lexed (.string text) ∨ TokenKind.Lexed (.ident text)

/-- The coefficients of a series of positions are integers of 32 bits. -/
def Structural.Lexed : Structural → Prop
  | nth _ series => Nth.inRange series.a = true ∧ Nth.inRange series.b = true
  | _ => True

mutual

/-- The texts and series in a filter, at every depth, are those of tokens. -/
def Filter.Lexed : Filter → Prop
  | .className text => TokenKind.Lexed (.ident text)
  | .id text => TokenKind.Lexed (.hash text)
  | .attr selector => selector.Lexed
  | .structural s => s.Lexed
  | .not _ filters => Filter.AllLexed filters

def Filter.AllLexed : List Filter → Prop
  | [] => True
  | f :: fs => f.Lexed ∧ Filter.AllLexed fs

end

abbrev Compound.Lexed (compound : Compound) : Prop := Filter.AllLexed compound.filters

def Complex.Lexed (selector : Complex) : Prop :=
  selector.head.Lexed ∧ ∀ next ∈ selector.tail, next.2.Lexed

/-- A parser reads what has a property from tokens, and leaves tokens behind. -/
def Reads {α : Type} (P : α → Prop) (parser : Parser α) : Prop :=
  ∀ input a rest, input.Lexed → parser input = .ok (a, rest) → P a ∧ rest.Lexed

/-- Anything may be read. -/
abbrev Anything {α : Type} (_ : α) : Prop := True

theorem lexed_namePart {input : Input} (h : input.Lexed) : (namePart? input).2.Lexed := by
  rw [namePart?]
  split
  · exact h.advance
  · exact h.advance
  · exact h

theorem reads_typeSelector : Reads Anything typeSelector := by
  intro input a rest h hrun
  have hfirst := lexed_namePart h
  rw [typeSelector] at hrun
  split at hrun
  · rename_i heq
    rw [heq] at hfirst
    cases hrun
    exact ⟨trivial, hfirst⟩
  · rename_i heq
    rw [heq] at hfirst
    split at hrun
    · have hsecond := lexed_namePart hfirst.advance
      split at hrun
      · rename_i heq'
        rw [heq'] at hsecond
        cases hrun
        exact ⟨trivial, hsecond⟩
      · simp [Input.fail] at hrun
    · cases hrun
      exact ⟨trivial, hfirst⟩

theorem reads_attrName : Reads Anything attrName := by
  intro input a rest h hrun
  have hfirst := lexed_namePart h
  simp only [attrName] at hrun
  split at hrun
  · split at hrun
    · cases hrun
      exact ⟨trivial, hfirst.advance.advance⟩
    · simp [Input.fail] at hrun
  · split at hrun
    · cases hrun
      exact ⟨trivial, hfirst⟩
    · simp [Input.fail] at hrun

theorem reads_attrComparison : Reads (fun comparison => ∀ op text, comparison = some (op, text) →
    TokenKind.Lexed (.string text) ∨ TokenKind.Lexed (.ident text)) attrComparison := by
  intro input a rest h hrun
  rw [attrComparison] at hrun
  split at hrun
  · cases hrun
    exact ⟨nofun, h⟩
  · have hcurrent := h.advance.skipBlanks.current
    simp only at hrun
    split at hrun
    · rename_i hstring
      cases hrun
      rw [hstring] at hcurrent
      refine ⟨fun op text heq => ?_, h.advance.skipBlanks.advance.skipBlanks⟩
      cases heq
      exact .inl hcurrent
    · rename_i hident
      cases hrun
      rw [hident] at hcurrent
      refine ⟨fun op text heq => ?_, h.advance.skipBlanks.advance.skipBlanks⟩
      cases heq
      exact .inr hcurrent
    · simp [Input.fail] at hrun

theorem reads_attrSelector : Reads AttrSelector.Lexed attrSelector := by
  intro input a rest h hrun
  simp only [attrSelector, bind_eq_ok_iff, Except.ok.injEq, Prod.mk.injEq] at hrun
  obtain ⟨⟨⟨pfx, name⟩, input₁⟩, hname, ⟨comparison, input₂⟩, hcomparison, rest', hexpect, rfl,
    rfl⟩ := hrun
  have h₁ := (reads_attrName _ _ _ h.advance.skipBlanks hname).2
  obtain ⟨hlexed, h₂⟩ := reads_attrComparison _ _ _ h₁.skipBlanks hcomparison
  exact ⟨hlexed, h₂.expect hexpect⟩

theorem reads_nthArgument : Reads
    (fun series => Nth.inRange series.a = true ∧ Nth.inRange series.b = true) nthArgument := by
  intro input a rest h hrun
  rw [nthArgument] at hrun
  split at hrun
  · split at hrun
    · rename_i hseries
      cases hrun
      exact ⟨Nth.inRange_of_parse? hseries, h.advance⟩
    · simp [Input.fail] at hrun
  · simp [Input.unexpected, Input.fail] at hrun

theorem lexed_plainClasses : ∀ entry ∈ plainClasses, entry.2.Lexed := by
  simp [plainClasses, Structural.Lexed]

section
variable {inner : Parser Compound} (hinner : Reads Compound.Lexed inner)
include hinner

theorem reads_pseudoFunction (name : String) : Reads Filter.Lexed (pseudoFunction inner name) := by
  intro input a rest h hrun
  rw [pseudoFunction] at hrun
  split at hrun
  · simp only [bind_eq_ok_iff] at hrun
    obtain ⟨⟨series, input₁⟩, hseries, hrun⟩ := hrun
    obtain ⟨hlexed, h₁⟩ := reads_nthArgument _ _ _ h hseries
    split at hrun
    · simp only [bind_eq_ok_iff, Except.ok.injEq, Prod.mk.injEq] at hrun
      obtain ⟨rest', hexpect, rfl, rfl⟩ := hrun
      exact ⟨hlexed, h₁.expect hexpect⟩
    · cases hrun
  · split at hrun
    · simp only [bind_eq_ok_iff, Except.ok.injEq, Prod.mk.injEq] at hrun
      obtain ⟨⟨compound, input₁⟩, hcompound, rest', hexpect, rfl, rfl⟩ := hrun
      obtain ⟨hlexed, h₁⟩ := hinner _ _ _ h.skipBlanks hcompound
      exact ⟨hlexed, h₁.skipBlanks.expect hexpect⟩
    · cases hrun

theorem reads_pseudoClass : Reads Filter.Lexed (pseudoClass inner) := by
  intro input a rest h hrun
  simp only [pseudoClass] at hrun
  split at hrun
  · split at hrun
    · rename_i hplain
      cases hrun
      exact ⟨lexed_plainClasses _ (mem_of_lookup hplain), h.advance.advance⟩
    · cases hrun
  · exact reads_pseudoFunction hinner _ _ _ _ h.advance.advance hrun
  · cases hrun
  · simp [Input.fail] at hrun

omit hinner in
theorem reads_className : Reads Filter.Lexed className := by
  intro input a rest h hrun
  simp only [className] at hrun
  split at hrun
  · rename_i hident
    cases hrun
    have hcurrent := h.advance.current
    rw [hident] at hcurrent
    exact ⟨hcurrent, h.advance.advance⟩
  · simp [Input.fail] at hrun

theorem reads_filter? : Reads (fun f? => ∀ f, f? = some f → f.Lexed) (filter? inner) := by
  intro input a rest h hrun
  rw [filter?.eq_def] at hrun
  split at hrun
  · simp only [bind_eq_ok_iff, Except.ok.injEq, Prod.mk.injEq] at hrun
    obtain ⟨⟨f, input₁⟩, hf, rfl, rfl⟩ := hrun
    obtain ⟨hlexed, h₁⟩ := reads_className _ _ _ h hf
    exact ⟨fun _ heq => Option.some.inj heq ▸ hlexed, h₁⟩
  · rename_i hhash
    cases hrun
    have hcurrent := h.current
    rw [hhash] at hcurrent
    exact ⟨fun _ heq => Option.some.inj heq ▸ hcurrent, h.advance⟩
  · simp only [bind_eq_ok_iff, Except.ok.injEq, Prod.mk.injEq] at hrun
    obtain ⟨⟨selector, input₁⟩, hselector, rfl, rfl⟩ := hrun
    obtain ⟨hlexed, h₁⟩ := reads_attrSelector _ _ _ h hselector
    exact ⟨fun _ heq => Option.some.inj heq ▸ hlexed, h₁⟩
  · simp only [bind_eq_ok_iff, Except.ok.injEq, Prod.mk.injEq] at hrun
    obtain ⟨⟨f, input₁⟩, hf, rfl, rfl⟩ := hrun
    obtain ⟨hlexed, h₁⟩ := reads_pseudoClass hinner _ _ _ h hf
    exact ⟨fun _ heq => Option.some.inj heq ▸ hlexed, h₁⟩
  · cases hrun
    exact ⟨fun _ heq => (nomatch heq), h⟩

theorem reads_filtersFrom (rounds : Nat) : Reads Filter.AllLexed (filtersFrom inner rounds) := by
  induction rounds with
  | zero =>
      intro input a rest h hrun
      cases hrun
      exact ⟨trivial, h⟩
  | succ rounds ih =>
      intro input a rest h hrun
      rw [filtersFrom] at hrun
      simp only [bind_eq_ok_iff] at hrun
      obtain ⟨⟨f?, input₁⟩, hf, hrun⟩ := hrun
      obtain ⟨hlexed, h₁⟩ := reads_filter? hinner _ _ _ h hf
      split at hrun
      · rename_i heq
        cases heq
        cases hrun
        exact ⟨trivial, h₁⟩
      · rename_i f input' heq
        cases heq
        simp only [bind_eq_ok_iff, Except.ok.injEq, Prod.mk.injEq] at hrun
        obtain ⟨⟨fs, input₂⟩, hfs, rfl, rfl⟩ := hrun
        obtain ⟨hall, h₂⟩ := ih _ _ _ h₁ hfs
        exact ⟨⟨hlexed f rfl, hall⟩, h₂⟩

theorem reads_compoundWith : Reads Compound.Lexed (compoundWith inner) := by
  intro input a rest h hrun
  simp only [compoundWith, bind_eq_ok_iff] at hrun
  obtain ⟨⟨element, input₁⟩, helement, ⟨filters, input₂⟩, hfilters, hrun⟩ := hrun
  have h₁ := (reads_typeSelector _ _ _ h helement).2
  obtain ⟨hall, h₂⟩ := reads_filtersFrom hinner _ _ _ _ h₁ hfilters
  split at hrun
  · simp [Input.fail] at hrun
  · cases hrun
    exact ⟨hall, h₂⟩

end

theorem reads_compoundNested (depth : Nat) : Reads Compound.Lexed (compoundNested depth) := by
  induction depth with
  | zero =>
      intro input a rest _ hrun
      simp [compoundNested, Input.fail] at hrun
  | succ depth ih => exact reads_compoundWith ih

theorem reads_compound : Reads Compound.Lexed compound :=
  fun input => reads_compoundNested _ input

/-! ## Chains and lists -/

theorem reads_combinator? : Reads Anything combinator? := by
  intro input a rest h hrun
  simp only [combinator?] at hrun
  split at hrun
  · cases hrun
    exact ⟨trivial, h.skipBlanks.advance.skipBlanks⟩
  · cases hrun
  · cases hrun
  · cases hrun
    exact ⟨trivial, h.skipBlanks⟩
  · cases hrun
    exact ⟨trivial, h.skipBlanks⟩
  · split at hrun
    · cases hrun
      exact ⟨trivial, h.skipBlanks.skipBlanks⟩
    · simp [Input.unexpected, Input.fail] at hrun

theorem reads_tailFrom (rounds : Nat) :
    Reads (fun tail => ∀ next ∈ tail, next.2.Lexed) (tailFrom rounds) := by
  induction rounds with
  | zero =>
      intro input a rest h hrun
      cases hrun
      exact ⟨by simp, h⟩
  | succ rounds ih =>
      intro input a rest h hrun
      rw [tailFrom] at hrun
      simp only [bind_eq_ok_iff] at hrun
      obtain ⟨⟨combinator, input₁⟩, hcombinator, hrun⟩ := hrun
      have h₁ := (reads_combinator? _ _ _ h hcombinator).2
      split at hrun
      · rename_i heq
        cases heq
        cases hrun
        exact ⟨by simp, h₁⟩
      · rename_i heq
        cases heq
        simp only [bind_eq_ok_iff, Except.ok.injEq, Prod.mk.injEq] at hrun
        obtain ⟨⟨c, input₂⟩, hc, ⟨tail, input₃⟩, htail, rfl, rfl⟩ := hrun
        obtain ⟨hlexed, h₂⟩ := reads_compound _ _ _ h₁ hc
        obtain ⟨hall, h₃⟩ := ih _ _ _ h₂ htail
        exact ⟨List.forall_mem_cons.mpr ⟨hlexed, hall⟩, h₃⟩

theorem reads_complex : Reads Complex.Lexed complex := by
  intro input a rest h hrun
  simp only [complex, bind_eq_ok_iff, Except.ok.injEq, Prod.mk.injEq] at hrun
  obtain ⟨⟨head, input₁⟩, hhead, ⟨tail, input₂⟩, htail, rfl, rfl⟩ := hrun
  have hstart : (if input.current = .greater then input.advance.skipBlanks else input).Lexed := by
    split
    · exact h.advance.skipBlanks
    · exact h
  obtain ⟨hlexed, h₁⟩ := reads_compound _ _ _ hstart hhead
  obtain ⟨hall, h₂⟩ := reads_tailFrom _ _ _ _ h₁ htail
  exact ⟨⟨hlexed, hall⟩, h₂⟩

theorem lexed_of_listFrom {rounds : Nat} {input : Input} {selectors : SelectorList}
    (h : input.Lexed) (hrun : listFrom rounds input = .ok selectors) :
    selectors ≠ [] ∧ ∀ selector ∈ selectors, selector.Lexed := by
  induction rounds generalizing input selectors with
  | zero => simp [listFrom, Input.unexpected, Input.fail] at hrun
  | succ rounds ih =>
      rw [listFrom] at hrun
      simp only [bind_eq_ok_iff] at hrun
      obtain ⟨⟨selector, input₁⟩, hselector, hrun⟩ := hrun
      obtain ⟨hlexed, h₁⟩ := reads_complex _ _ _ h.skipBlanks hselector
      split at hrun
      · simp only [bind_eq_ok_iff, Except.ok.injEq] at hrun
        obtain ⟨selectors', hselectors, rfl⟩ := hrun
        exact ⟨List.cons_ne_nil _ _, List.forall_mem_cons.mpr
          ⟨hlexed, (ih h₁.skipBlanks.advance hselectors).2⟩⟩
      · cases hrun
        exact ⟨List.cons_ne_nil _ _, by simpa using hlexed⟩
      · simp [Input.unexpected, Input.fail] at hrun

/-- A text is read as at least one selector, and what these carry comes from tokens. -/
theorem lexed_of_parse {text : String} {selectors : SelectorList} (h : parse text = .ok selectors) :
    selectors ≠ [] ∧ ∀ selector ∈ selectors, selector.Lexed := by
  simp only [parse, bind_eq_ok_iff] at h
  obtain ⟨input, hinput, hrun⟩ := h
  exact lexed_of_listFrom (Input.lexed_ofText hinput) hrun

end TreeQuery.Selector
