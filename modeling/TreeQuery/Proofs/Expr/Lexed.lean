import TreeQuery.Expr.Token.Lexer
import TreeQuery.Proofs.Outcome

/-!
What tokens carry. Every name that is read from a text is written with the characters of names,
every string literal leaves one of the two quotes out, and every number is a decimal fraction.
-/
namespace TreeQuery.Expr

open TreeQuery.Text (Place isBlank isAlphanumeric)

/-! ## Names -/

/-- A text that is read as one name. -/
def IsName (text : String) : Prop :=
  startsName text.toList = true ∧ ∀ c ∈ text.toList, isNameChar c = true

/-- A star, or a name. -/
def IsNameOrStar (text : String) : Prop := text = "*" ∨ IsName text

/-- What a token carries can be written. -/
def TokenKind.Fitting : TokenKind → Prop
  | number value => ∃ digits places, value = Number.ofDecimal digits places
  | string text => '\"' ∉ text.toList ∨ '\x27' ∉ text.toList
  | name text | axis text | reference text => IsName text
  | nameTest pfx localPart => IsNameOrStar pfx ∧ IsNameOrStar localPart
  | nodeType text => text ∈ nodeTypeNames
  | _ => True

theorem isNameChar_of_isNameStart {c : Char} (h : isNameStart c = true) : isNameChar c = true := by
  rw [isNameStart, Bool.or_eq_true] at h
  rw [isNameChar, isAlphanumeric]
  rcases h with h | h <;> simp [h]

theorem isName_nameAt {cs : List Char} (h : startsName cs = true) :
    IsName (String.ofList (nameAt cs)) := by
  rw [IsName, String.toList_ofList]
  refine ⟨?_, List.all_eq_true.mp List.all_takeWhile⟩
  cases cs with
  | nil => cases h
  | cons c cs => rwa [nameAt, List.takeWhile_cons_of_pos (isNameChar_of_isNameStart h)]

theorem isNameOrStar_localPartAt? {cs localPart : List Char}
    (h : localPartAt? cs = some localPart) : IsNameOrStar (String.ofList localPart) := by
  unfold localPartAt? at h
  split at h
  · cases h; exact .inl rfl
  · split at h
    · cases h; exact .inr (isName_nameAt ‹_›)
    · cases h
  · cases h

/-! ## Single tokens -/

theorem fitting_pairs : ∀ entry ∈ pairs, entry.2.Fitting := by simp [pairs, TokenKind.Fitting]

theorem fitting_singles : ∀ entry ∈ singles, entry.2.Fitting := by
  simp [singles, TokenKind.Fitting]

theorem fitting_operatorNames : ∀ entry ∈ operatorNames, entry.2.Fitting := by
  simp [operatorNames, TokenKind.Fitting]

theorem fitting_numberAt (cs : List Char) : (numberAt cs).1.Fitting := by
  unfold numberAt
  dsimp only
  split <;> exact ⟨_, _, rfl⟩

theorem fitting_stringAt {quote : Char} (hquote : quote = '\"' ∨ quote = '\x27') {cs : List Char}
    {kind : TokenKind} {width : Nat} (h : stringAt quote cs = .ok (kind, width)) :
    kind.Fitting := by
  rw [stringAt] at h
  split at h
  · cases h
    have hout : quote ∉ cs.takeWhile (· != quote) := fun hmem => by
      simpa using List.all_eq_true.mp List.all_takeWhile quote hmem
    rw [TokenKind.Fitting, String.toList_ofList]
    rcases hquote with rfl | rfl
    · exact .inl hout
    · exact .inr hout
  · cases h

theorem fitting_wordKind {text : String} {after : List Char} (h : IsName text) :
    (wordKind text after).Fitting := by
  unfold wordKind
  split
  · exact h
  · split
    · exact List.contains_iff_mem.mp ‹_›
    · exact h
  · exact h

theorem fitting_wordAt {operatorAllowed : Bool} {cs : List Char} (h : startsName cs = true) :
    (wordAt operatorAllowed cs).1.Fitting := by
  unfold wordAt
  dsimp only
  split
  · rename_i hoperator
    split at hoperator
    · exact fitting_operatorNames _ (mem_of_lookup hoperator)
    · cases hoperator
  · rename_i hlocal
    exact ⟨.inr (isName_nameAt h), isNameOrStar_localPartAt? hlocal⟩
  · exact fitting_wordKind (isName_nameAt h)

theorem fitting_starAt {operatorAllowed : Bool} {cs : List Char} :
    (starAt operatorAllowed cs).1.Fitting := by
  unfold starAt
  split
  · rename_i hlocal
    exact ⟨.inl rfl, isNameOrStar_localPartAt? hlocal⟩
  · trivial

/-- All ways to read a token, by what its first character is. -/
theorem lexeme_eq_ok {operatorAllowed : Bool} {c : Char} {cs : List Char} {kind : TokenKind}
    {width : Nat} (h : lexeme operatorAllowed c cs = .ok (kind, width)) :
    (∃ d, ((c, d), kind) ∈ pairs) ∨ (kind, width) = numberAt (c :: cs) ∨ (c, kind) ∈ singles ∨
      (kind, width) = starAt operatorAllowed cs ∨
      (startsName cs = true ∧ kind = .reference (String.ofList (nameAt cs))) ∨
      ((c = '\"' ∨ c = '\x27') ∧ stringAt c cs = .ok (kind, width)) ∨
      (startsName (c :: cs) = true ∧ (kind, width) = wordAt operatorAllowed (c :: cs)) := by
  unfold lexeme at h
  split at h
  · rename_i hpair
    cases h
    cases cs with
    | nil => cases hpair
    | cons d cs => exact .inl ⟨d, mem_of_lookup hpair⟩
  · refine .inr ?_
    split at h
    · exact .inl (Except.ok.inj h).symm
    · refine .inr ?_
      split at h
      · rename_i hsingle
        cases h
        exact .inl (mem_of_lookup hsingle)
      · refine .inr ?_
        split at h
        · exact .inl (Except.ok.inj h).symm
        · refine .inr ?_
          split at h
          · split at h
            · cases h
              exact .inl ⟨‹_›, rfl⟩
            · cases h
          · refine .inr ?_
            split at h
            · rename_i hquote
              exact .inl ⟨by simpa using hquote, h⟩
            · split at h
              · exact .inr ⟨‹_›, (Except.ok.inj h).symm⟩
              · cases h

theorem fitting_lexeme {operatorAllowed : Bool} {c : Char} {cs : List Char} {kind : TokenKind}
    {width : Nat} (h : lexeme operatorAllowed c cs = .ok (kind, width)) : kind.Fitting := by
  rcases lexeme_eq_ok h with ⟨d, h⟩ | h | h | h | ⟨hname, rfl⟩ | ⟨hquote, h⟩ | ⟨hstart, h⟩
  · exact fitting_pairs _ h
  · obtain rfl : kind = _ := congrArg Prod.fst h
    exact fitting_numberAt (c :: cs)
  · exact fitting_singles _ h
  · obtain rfl : kind = _ := congrArg Prod.fst h
    exact fitting_starAt
  · exact isName_nameAt hname
  · exact fitting_stringAt hquote h
  · obtain rfl : kind = _ := congrArg Prod.fst h
    exact fitting_wordAt hstart

theorem kind_numberAt (cs : List Char) : ∃ value, (numberAt cs).1 = .number value := by
  unfold numberAt
  dsimp only
  split <;> exact ⟨_, rfl⟩

theorem kind_starAt (operatorAllowed : Bool) (cs : List Char) :
    (starAt operatorAllowed cs).1 = .star ∨
      ∃ pfx localPart, (starAt operatorAllowed cs).1 = .nameTest pfx localPart := by
  unfold starAt
  split
  · exact .inr ⟨_, _, rfl⟩
  · exact .inl rfl

theorem kind_stringAt {quote : Char} {cs : List Char} {kind : TokenKind} {width : Nat}
    (h : stringAt quote cs = .ok (kind, width)) : ∃ text, kind = .string text := by
  unfold stringAt at h
  dsimp only at h
  split at h <;> cases h
  exact ⟨_, rfl⟩

theorem kind_wordAt {operatorAllowed : Bool} {cs : List Char} {kind : TokenKind} {width : Nat}
    (h : (kind, width) = wordAt operatorAllowed cs) :
    (∃ pfx localPart, kind = .nameTest pfx localPart) ∨ (∃ name, (name, kind) ∈ operatorNames) ∨
      ∃ text, kind = wordKind text (cs.drop width) := by
  unfold wordAt at h
  dsimp only at h
  split at h
  · rename_i hoperator
    cases h
    split at hoperator
    · exact .inr (.inl ⟨_, mem_of_lookup hoperator⟩)
    · cases hoperator
  · cases h
    exact .inl ⟨_, _, rfl⟩
  · cases h
    exact .inr (.inr ⟨_, rfl⟩)

/-- What kinds of tokens there are to read. Only what a word is depends on what follows it. -/
theorem lexeme_kind {operatorAllowed : Bool} {c : Char} {cs : List Char} {kind : TokenKind}
    {width : Nat} (h : lexeme operatorAllowed c cs = .ok (kind, width)) :
    (∃ d, ((c, d), kind) ∈ pairs) ∨ (c, kind) ∈ singles ∨ (∃ value, kind = .number value) ∨
      kind = .star ∨ (∃ text, kind = .reference text) ∨ (∃ text, kind = .string text) ∨
      (∃ pfx localPart, kind = .nameTest pfx localPart) ∨ (∃ name, (name, kind) ∈ operatorNames) ∨
      ∃ text, kind = wordKind text ((c :: cs).drop width) := by
  rcases lexeme_eq_ok h with h | h | h | h | ⟨_, h⟩ | ⟨_, h⟩ | ⟨_, h⟩
  · simp only [h, true_or]
  · obtain rfl : kind = _ := congrArg Prod.fst h
    simp only [kind_numberAt, true_or, or_true]
  · simp only [h, true_or, or_true]
  · obtain rfl : kind = _ := congrArg Prod.fst h
    rcases kind_starAt operatorAllowed cs with h | h <;> simp only [h, true_or, or_true]
  · simp [h]
  · simp only [kind_stringAt h, true_or, or_true]
  · rcases kind_wordAt h with h | h | h <;> simp only [h, true_or, or_true]

theorem wordKind_eq_name {text name : String} {after : List Char}
    (h : wordKind text after = .name name) : text = name := by
  unfold wordKind at h
  split at h
  · cases h
  · split at h <;> cases h
    rfl
  · cases h
    rfl

theorem wordKind_ne_leftParen (text : String) (after : List Char) :
    wordKind text after ≠ .leftParen := by
  unfold wordKind
  split
  · simp
  · split <;> simp
  · simp

/-- A name has no punctuation behind it that makes it something else. -/
theorem lexeme_name {operatorAllowed : Bool} {c : Char} {cs : List Char} {text : String}
    {width : Nat} (h : lexeme operatorAllowed c cs = .ok (.name text, width)) :
    wordKind text ((c :: cs).drop width) = .name text := by
  rcases lexeme_kind h with ⟨_, h⟩ | h | ⟨_, h⟩ | h | ⟨_, h⟩ | ⟨_, h⟩ | ⟨_, _, h⟩ | ⟨_, h⟩ | ⟨_, h⟩
  · simp [pairs] at h
  · simp [singles] at h
  · cases h
  · cases h
  · cases h
  · cases h
  · cases h
  · simp [operatorNames] at h
  · obtain rfl := wordKind_eq_name h.symm
    exact h.symm

theorem lexeme_leftParen {operatorAllowed : Bool} {c : Char} {cs : List Char} {width : Nat}
    (h : lexeme operatorAllowed c cs = .ok (.leftParen, width)) : c = '(' := by
  rcases lexeme_kind h with ⟨_, h⟩ | h | ⟨_, h⟩ | h | ⟨_, h⟩ | ⟨_, h⟩ | ⟨_, _, h⟩ | ⟨_, h⟩ | ⟨_, h⟩
  · simp [pairs] at h
  · simpa [singles] using h
  · cases h
  · cases h
  · cases h
  · cases h
  · cases h
  · simp [operatorNames] at h
  · exact absurd h.symm (wordKind_ne_leftParen _ _)

/-! ## All tokens of a text -/

/-- No name in front of a parenthesis is one of a node test. -/
def NamesCalls (kinds : List TokenKind) : Prop :=
  ∀ text rest, .name text :: .leftParen :: rest <:+ kinds → text ∉ nodeTypeNames

/-- Tokens that can be written one after the other. -/
structure Written (kinds : List TokenKind) : Prop where
  fitting : ∀ kind ∈ kinds, kind.Fitting
  namesCalls : NamesCalls kinds

theorem Written.suffix {kinds rest : List TokenKind} (h : Written kinds) (hrest : rest <:+ kinds) :
    Written rest where
  fitting kind hkind := h.fitting kind (hrest.subset hkind)
  namesCalls text more hmore := h.namesCalls text more (hmore.trans hrest)

namespace Tokens

def kinds (ts : Tokens) : List TokenKind := ts.ahead.map (·.kind)

theorem drop_takeWhile {α : Type} (p : α → Bool) (l : List α) :
    l.drop (l.takeWhile p).length = l.dropWhile p := by
  induction l with
  | nil => rfl
  | cons a l ih => cases hp : p a <;> simp [hp, ih]

/-- Nothing more is read, or a token at the first character that is not blank. -/
theorem kinds_scan (rounds : Nat) (operatorAllowed : Bool) (place : Place) (cs : List Char) :
    (scan rounds operatorAllowed place cs).kinds = [] ∨
      ∃ c more rounds' place' kind width, rounds = rounds' + 1 ∧ cs.dropWhile isBlank = c :: more ∧
        lexeme operatorAllowed c more = .ok (kind, width) ∧
        (scan rounds operatorAllowed place cs).kinds = kind ::
          (scan rounds' (kind.allowsOperator operatorAllowed) place'
            ((c :: more).drop width)).kinds := by
  generalize hkinds : (scan rounds operatorAllowed place cs).kinds = kinds
  rw [scan.eq_def] at hkinds
  simp only [drop_takeWhile] at hkinds
  split at hkinds
  · exact .inl hkinds.symm
  · exact .inl hkinds.symm
  · rename_i hcs
    split at hkinds
    · exact .inl hkinds.symm
    · rename_i hlexeme
      exact .inr ⟨_, _, _, _, _, _, rfl, hcs, hlexeme, hkinds.symm⟩

theorem head_of_scan_leftParen {rounds : Nat} {operatorAllowed : Bool} {place : Place}
    {cs : List Char} {rest : List TokenKind}
    (h : (scan rounds operatorAllowed place cs).kinds = .leftParen :: rest) :
    ∃ more, cs.dropWhile isBlank = '(' :: more := by
  obtain hnil | ⟨c, more, _, _, kind, _, _, hcs, hlexeme, hkinds⟩ :=
    kinds_scan rounds operatorAllowed place cs
  · rw [hnil] at h
    cases h
  · rw [hkinds] at h
    cases h
    exact ⟨more, lexeme_leftParen hlexeme ▸ hcs⟩

theorem wordKind_of_leftParen {text : String} {after more : List Char}
    (hafter : after.dropWhile isBlank = '(' :: more) (htext : text ∈ nodeTypeNames) :
    wordKind text after = .nodeType text := by
  simp only [wordKind, hafter]
  exact if_pos (List.contains_iff_mem.mpr htext)

theorem written_scan {rounds : Nat} {operatorAllowed : Bool} {place : Place} {cs : List Char} :
    Written (scan rounds operatorAllowed place cs).kinds := by
  induction rounds generalizing operatorAllowed place cs with
  | zero =>
      obtain hnil | ⟨_, _, _, _, _, _, hrounds, _⟩ := kinds_scan 0 operatorAllowed place cs
      · rw [hnil]
        exact ⟨List.forall_mem_nil _, fun _ _ h => by simp at h⟩
      · cases hrounds
  | succ rounds ih =>
      obtain hnil | ⟨c, more, _, place', kind, width, hrounds, hcs, hlexeme, hkinds⟩ :=
        kinds_scan (rounds + 1) operatorAllowed place cs
      · rw [hnil]
        exact ⟨List.forall_mem_nil _, fun _ _ h => by simp at h⟩
      · cases hrounds
        rw [hkinds]
        refine ⟨List.forall_mem_cons.mpr ⟨fitting_lexeme hlexeme, ih.fitting⟩, ?_⟩
        intro text rest hsuffix htext
        rcases List.suffix_cons_iff.mp hsuffix with heq | hsuffix
        · obtain ⟨rfl, hrest⟩ := List.cons.inj heq
          obtain ⟨behind, hbehind⟩ := head_of_scan_leftParen hrest.symm
          have hname := lexeme_name hlexeme
          rw [wordKind_of_leftParen hbehind htext] at hname
          cases hname
        · exact ih.namesCalls text rest hsuffix htext

theorem written_ofText (text : String) : Written (ofText text).kinds := written_scan

end Tokens

end TreeQuery.Expr
