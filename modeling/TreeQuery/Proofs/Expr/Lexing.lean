import TreeQuery.Expr.Printer
import TreeQuery.Proofs.Expr.Complete
import TreeQuery.Proofs.Number.Written
import TreeQuery.Proofs.Text.Stops

/-!
Texts that are cut into given tokens. What a token is read as depends on what stands behind it, so
every lemma on a token says what that may be. `parse_of_lexes` leads from the tokens of a text to
the expression they derive.
-/
namespace TreeQuery.Expr

open TreeQuery.Text

/-- The text is read as one token in front of the rest. -/
def Cuts (operatorAllowed : Bool) (text rest : List Char) (kind : TokenKind) : Prop :=
  ∃ c more, text = c :: more ∧ isBlank c = false ∧
    lexeme operatorAllowed c (more ++ rest) = .ok (kind, text.length)

/-- The text is read as the tokens, with blanks between them. -/
inductive Lexes : Bool → List Char → List TokenKind → Prop where
  | nil {operatorAllowed : Bool} : Lexes operatorAllowed [] []
  | blank {operatorAllowed : Bool} {c : Char} {cs : List Char} {kinds : List TokenKind}
      (hc : isBlank c = true) (h : Lexes operatorAllowed cs kinds) :
      Lexes operatorAllowed (c :: cs) kinds
  | token {operatorAllowed : Bool} {text rest : List Char} {kind : TokenKind}
      {kinds : List TokenKind} (hkind : Cuts operatorAllowed text rest kind)
      (h : Lexes (kind.allowsOperator operatorAllowed) rest kinds) :
      Lexes operatorAllowed (text ++ rest) (kind :: kinds)

/-! ## Whole texts -/

namespace Tokens

theorem Holds.push {ts : Tokens} {kinds : List TokenKind} (h : ts.Holds kinds) (token : Token) :
    (ts.push token).Holds (token.kind :: kinds) :=
  ⟨congrArg (token.kind :: ·) h.1, h.2⟩

theorem scan_blank {c : Char} (hc : isBlank c = true) (rounds : Nat) (operatorAllowed : Bool)
    (place : Place) (cs : List Char) :
    scan rounds operatorAllowed place (c :: cs) =
      scan rounds operatorAllowed (place.past c) cs := by
  rw [scan.eq_def, scan.eq_def _ _ (place.past c)]
  simp only [List.takeWhile_cons_of_pos hc, List.length_cons, List.drop_succ_cons, Place.after_cons]

theorem holds_scan {operatorAllowed : Bool} {cs : List Char} {kinds : List TokenKind}
    (h : Lexes operatorAllowed cs kinds) {rounds : Nat} (hrounds : cs.length ≤ rounds)
    (place : Place) : (scan rounds operatorAllowed place cs).Holds kinds := by
  induction h generalizing rounds place with
  | nil =>
      rw [scan.eq_def]
      exact ⟨rfl, _, rfl⟩
  | blank hc _ ih =>
      rw [scan_blank hc]
      exact ih (Nat.le_of_succ_le hrounds) _
  | @token operatorAllowed text rest kind kinds hkind _ ih =>
      obtain ⟨c, more, rfl, hc, hlexeme⟩ := hkind
      obtain ⟨rounds, rfl⟩ := Nat.exists_eq_add_of_le' (Nat.le_trans (Nat.succ_pos _) hrounds)
      have hdrop : (c :: (more ++ rest)).drop (c :: more).length = rest := by
        rw [← List.cons_append, List.drop_left]
      rw [scan.eq_def]
      simp only [List.cons_append, List.takeWhile_cons_of_neg (Bool.eq_false_iff.mp hc),
        List.length_nil, List.drop_zero, hlexeme, hdrop]
      refine (ih ?_ _).push ⟨kind, _⟩
      simp only [List.cons_append, List.length_cons, List.length_append] at hrounds
      omega

end Tokens

/-- A text is parsed as what the grammar derives from its tokens. -/
theorem parse_of_lexes {text : String} {kinds : List TokenKind} {e : Expr}
    (htext : Lexes false text.toList kinds) (h : Derives (.whole e) kinds []) :
    parse text = .ok e := by
  obtain ⟨hkinds, place, hstop⟩ := Tokens.holds_scan htext (Nat.le_refl _) Place.start
  have htokens : (Tokens.ofText text).toList = .ok (Tokens.ofText text).ahead := by
    rw [Tokens.toList, Tokens.ofText, hstop]
    rfl
  rw [← hkinds] at h
  exact parse_of_derives htokens h

/-! ## What stands behind a token -/

theorem nameAt_append {text : String} (h : IsName text) {rest : List Char}
    (hrest : Stops isNameChar rest) : nameAt (text.toList ++ rest) = text.toList :=
  takeWhile_append h.2 hrest

/-- What ends any token other than a slash, and makes no name in front of it something else. -/
structure Closes (rest : List Char) : Prop where
  head : ∀ c ∈ rest.head?, c ∈ [' ', ')', ']', ',', '/', '[']
  word : ∀ text, wordKind text rest = .name text

theorem Closes.stops {rest : List Char} (h : Closes rest) {p : Char → Bool}
    (hp : ([' ', ')', ']', ',', '/', '['].all fun c => !p c) = true) : Stops p rest := by
  intro c hc
  have hout := List.all_eq_true.mp hp c (h.head c hc)
  rwa [Bool.not_eq_true'] at hout

theorem Closes.stops_name {rest : List Char} (h : Closes rest) : Stops isNameChar rest :=
  h.stops rfl

theorem Closes.stops_digit {rest : List Char} (h : Closes rest) : Stops Char.isDigit rest :=
  h.stops rfl

theorem Closes.stops_point {rest : List Char} (h : Closes rest) : Stops (· == '.') rest :=
  h.stops rfl

theorem Closes.localPartAt? {rest : List Char} (h : Closes rest) : localPartAt? rest = none := by
  cases rest with
  | nil => rfl
  | cons c rest =>
      have hc := h.head c rfl
      simp only [List.mem_cons, List.not_mem_nil, or_false] at hc
      rcases hc with rfl | rfl | rfl | rfl | rfl | rfl <;> rfl

/-! ## Symbols -/

theorem cuts_single {c : Char} {kind : TokenKind} (h : singles.lookup c = some kind)
    (hpoint : c ≠ '.') {rest : List Char} (hpair : pairAt? c rest = none) (allowed : Bool) :
    Cuts allowed [c] rest kind := by
  have hsingles : ∀ entry ∈ singles, entry.1.isDigit = false ∧ isBlank entry.1 = false := by decide
  obtain ⟨hdigit, hblank⟩ := hsingles _ (mem_of_lookup h)
  refine ⟨c, [], rfl, hblank, ?_⟩
  simp [lexeme, hpair, hpoint, hdigit, h]

theorem cuts_star {rest : List Char} (h : localPartAt? rest = none) :
    Cuts false ['*'] rest .star := by
  refine ⟨'*', [], rfl, rfl, ?_⟩
  have hpair : pairAt? '*' rest = none := by cases rest <;> rfl
  have hsingle : singles.lookup '*' = none := rfl
  simp [lexeme, hpair, hsingle, starAt, h]

theorem cuts_times (rest : List Char) : Cuts true ['*'] rest .star := by
  refine ⟨'*', [], rfl, rfl, ?_⟩
  have hpair : pairAt? '*' rest = none := by cases rest <;> rfl
  have hsingle : singles.lookup '*' = none := rfl
  simp [lexeme, hpair, hsingle, starAt]

/-! ## Words -/

theorem inRanges_of_disjoint {ranges ranges' : List (Nat × Nat)}
    (h : ∀ r ∈ ranges, ∀ r' ∈ ranges', r.2 < r'.1 ∨ r'.2 < r.1) {code : Nat}
    (hcode : inRanges ranges code = true) : inRanges ranges' code = false := by
  simp only [inRanges, List.any_eq_true, Bool.and_eq_true, decide_eq_true_eq] at hcode
  obtain ⟨r, hr, hfirst, hlast⟩ := hcode
  simp only [inRanges, List.any_eq_false, Bool.and_eq_true, decide_eq_true_eq]
  intro r' hr'
  have := h r hr r' hr'
  omega

theorem isDigit_of_isNameStart {c : Char} (h : isNameStart c = true) : c.isDigit = false := by
  rw [Bool.eq_false_iff]
  intro hdigit
  have hascii : ∀ code < 128, (Char.ofNat code).isDigit = true →
      isNameStart (Char.ofNat code) = false := by decide +kernel
  have hfalse := @of_ascii (fun c => c.isDigit = true → isNameStart c = false) hascii c
    (toNat_of_isDigit hdigit) hdigit
  exact Bool.false_ne_true (hfalse.symm.trans h)

theorem isBlank_of_isNameStart {c : Char} (h : isNameStart c = true) : isBlank c = false := by
  by_cases hlow : c.toNat < 128
  · have hascii : ∀ code < 128, isNameStart (Char.ofNat code) = true →
        isBlank (Char.ofNat code) = false := by decide +kernel
    exact @of_ascii (fun c => isNameStart c = true → isBlank c = false) hascii c hlow h
  · have hne : c ≠ '_' := by rintro rfl; exact hlow (by decide)
    simp only [isNameStart, isAlphabetic, if_neg hlow, Bool.or_eq_true, beq_iff_eq, hne,
      or_false] at h
    rw [isBlank, if_neg hlow]
    exact inRanges_of_disjoint (by decide +kernel) h

theorem ne_of_isNameStart {c d : Char} (h : isNameStart c = true) (hd : isNameStart d = false) :
    c ≠ d := by
  rintro rfl
  exact Bool.false_ne_true (hd.symm.trans h)

theorem pairAt?_of_ne {c : Char} (h : ∀ entry ∈ pairs, c ≠ entry.1.1) (cs : List Char) :
    pairAt? c cs = none := by
  cases cs with
  | nil => rfl
  | cons d cs =>
      rw [pairAt?, List.lookup_eq_none_iff]
      intro entry hentry
      simp [Prod.ext_iff, h entry hentry]

theorem lexeme_of_isNameStart {c : Char} (h : isNameStart c = true) (allowed : Bool)
    (cs : List Char) : lexeme allowed c cs = .ok (wordAt allowed (c :: cs)) := by
  have hne := fun d => @ne_of_isNameStart c d h
  have hpair : pairAt? c cs = none := by
    have hpairs : ∀ entry ∈ pairs, isNameStart entry.1.1 = false := by decide
    exact pairAt?_of_ne (fun entry hentry => hne _ (hpairs entry hentry)) cs
  have hsingle : singles.lookup c = none := by
    have hsingles : ∀ entry ∈ singles, isNameStart entry.1 = false := by decide
    rw [List.lookup_eq_none_iff]
    intro entry hentry
    simpa using hne _ (hsingles entry hentry)
  have hpoint := hne '.' rfl
  have hstar := hne '*' rfl
  have hdollar := hne '$' rfl
  have hquote := hne '\"' rfl
  have hapostrophe := hne '\x27' rfl
  simp [lexeme, hpair, hsingle, isDigit_of_isNameStart h, h, hpoint, hstar, hdollar, hquote,
    hapostrophe]

theorem IsName.cons {text : String} (h : IsName text) :
    ∃ c more, text.toList = c :: more ∧ isNameStart c = true := by
  have hstart := h.1
  cases htext : text.toList with
  | nil => rw [htext] at hstart; cases hstart
  | cons c more => exact ⟨c, more, rfl, by rwa [htext] at hstart⟩

/-- A text that starts with a name is cut as a word. -/
theorem cuts_of_wordAt {text : String} (h : IsName text) {behind rest : List Char}
    {kind : TokenKind} {allowed : Bool}
    (hword : wordAt allowed (text.toList ++ behind ++ rest) =
      (kind, (text.toList ++ behind).length)) :
    Cuts allowed (text.toList ++ behind) rest kind := by
  obtain ⟨c, more, htext, hc⟩ := h.cons
  rw [htext] at hword ⊢
  refine ⟨c, more ++ behind, rfl, isBlank_of_isNameStart hc, ?_⟩
  rw [lexeme_of_isNameStart hc]
  exact congrArg Except.ok hword

theorem cuts_word {text : String} (h : IsName text) {rest : List Char}
    (hrest : Stops isNameChar rest) (hlocal : localPartAt? rest = none) :
    Cuts false text.toList rest (wordKind text rest) := by
  have hcuts := @cuts_of_wordAt text h [] rest (wordKind text rest) false
  rw [List.append_nil] at hcuts
  refine hcuts ?_
  simp [wordAt, nameAt_append h hrest, hlocal]

theorem cuts_operator {text : String} {kind : TokenKind}
    (hkind : operatorNames.lookup text = some kind) {rest : List Char}
    (hrest : Stops isNameChar rest) : Cuts true text.toList rest kind := by
  have hnames : ∀ entry ∈ operatorNames, startsName entry.1.toList = true ∧
      entry.1.toList.all isNameChar = true := by decide
  obtain ⟨hstart, hchars⟩ := hnames _ (mem_of_lookup hkind)
  have h : IsName text := ⟨hstart, List.all_eq_true.mp hchars⟩
  have hcuts := @cuts_of_wordAt text h [] rest kind true
  rw [List.append_nil] at hcuts
  refine hcuts ?_
  simp [wordAt, nameAt_append h hrest, hkind]

/-- What stands behind a colon is read as it is written. -/
theorem localPartAt?_append {localPart : String} (h : IsNameOrStar localPart) {rest : List Char}
    (hrest : Stops isNameChar rest) :
    localPartAt? (':' :: (localPart.toList ++ rest)) = some localPart.toList := by
  rcases h with rfl | h
  · rfl
  · obtain ⟨c, more, hlocal, hc⟩ := h.cons
    have hname := nameAt_append h hrest
    rw [hlocal] at hname ⊢
    have hstar : c ≠ '*' := ne_of_isNameStart hc rfl
    simp only [List.cons_append] at hname ⊢
    simp [localPartAt?, startsName, hc, hstar, hname]

theorem cuts_prefixed {pfx localPart : String} (hpfx : IsName pfx)
    (hlocal : IsNameOrStar localPart) {rest : List Char} (hrest : Stops isNameChar rest) :
    Cuts false (pfx.toList ++ ':' :: localPart.toList) rest (.nameTest pfx localPart) := by
  refine cuts_of_wordAt hpfx ?_
  have hcolon : Stops isNameChar (':' :: (localPart.toList ++ rest)) := stops_cons rfl
  simp [wordAt, nameAt_append hpfx hcolon, localPartAt?_append hlocal hrest, Nat.add_assoc,
    Nat.add_comm 1]

theorem cuts_anyPrefixed {localPart : String} (hlocal : IsNameOrStar localPart)
    {rest : List Char} (hrest : Stops isNameChar rest) :
    Cuts false ('*' :: ':' :: localPart.toList) rest (.nameTest "*" localPart) := by
  refine ⟨'*', _, rfl, rfl, ?_⟩
  have hpair : pairAt? '*' (':' :: (localPart.toList ++ rest)) = none := rfl
  have hsingle : singles.lookup '*' = none := rfl
  simp [lexeme, hpair, hsingle, starAt, localPartAt?_append hlocal hrest, Nat.add_comm 2]

theorem cuts_reference {name : String} (h : IsName name) {rest : List Char}
    (hrest : Stops isNameChar rest) (allowed : Bool) :
    Cuts allowed ('$' :: name.toList) rest (.reference name) := by
  refine ⟨'$', _, rfl, rfl, ?_⟩
  have hpair : pairAt? '$' (name.toList ++ rest) = none := by
    cases name.toList ++ rest <;> rfl
  have hsingle : singles.lookup '$' = none := rfl
  have hstarts : startsName (name.toList ++ rest) = true := by
    obtain ⟨c, more, hname, hc⟩ := h.cons
    rwa [hname]
  simp [lexeme, hpair, hsingle, hstarts, nameAt_append h hrest, Nat.add_comm]

/-! ## Literals -/

theorem cuts_quoted {quote : Char} (hquote : quote = '\"' ∨ quote = '\x27') {text : String}
    (h : quote ∉ text.toList) (rest : List Char) (allowed : Bool) :
    Cuts allowed (quote :: (text.toList ++ [quote])) rest (.string text) := by
  have htake : (text.toList ++ quote :: rest).takeWhile (· != quote) = text.toList := by
    refine takeWhile_append ?_ ?_
    · rintro c hc
      simpa using fun heq : c = quote => h (heq ▸ hc)
    · exact stops_cons (by simp)
  have hpair : pairAt? quote (text.toList ++ quote :: rest) = none := by
    rcases hquote with rfl | rfl <;> cases text.toList <;> rfl
  have hsingle : singles.lookup quote = none := by rcases hquote with rfl | rfl <;> rfl
  have hdigit : quote.isDigit = false := by rcases hquote with rfl | rfl <;> rfl
  have hother : quote ≠ '.' ∧ quote ≠ '*' ∧ quote ≠ '$' := by
    rcases hquote with rfl | rfl <;> decide
  refine ⟨quote, _, rfl, by rcases hquote with rfl | rfl <;> rfl, ?_⟩
  simp [lexeme, hpair, hsingle, hdigit, hother, hquote, stringAt, htake]

theorem cuts_literal {text : String} (h : '\"' ∉ text.toList ∨ '\x27' ∉ text.toList)
    (rest : List Char) (allowed : Bool) :
    Cuts allowed (literal text).toList rest (.string text) := by
  rw [literal]
  split
  · rename_i hquote
    have hout := h.resolve_left (not_not_intro (List.contains_iff_mem.mp hquote))
    simpa using cuts_quoted (.inr rfl) hout rest allowed
  · rename_i hquote
    have hout : '\"' ∉ text.toList := fun hmem => hquote (List.contains_iff_mem.mpr hmem)
    simpa using cuts_quoted (.inl rfl) hout rest allowed

theorem fractionAt?_of_stops {rest : List Char} (h : Stops (· == '.') rest) :
    fractionAt? rest = none := by
  unfold fractionAt?
  split
  · rfl
  · exact absurd (h '.' rfl) (by simp)
  · rfl

theorem fractionAt?_point {rest : List Char} (h : Stops (· == '.') rest) :
    fractionAt? ('.' :: rest) = some (rest.takeWhile Char.isDigit) := by
  unfold fractionAt?
  split
  · rename_i heq
    cases heq
    exact absurd (h '.' rfl) (by simp)
  · rename_i heq
    cases heq
    rfl
  · rename_i hpoint
    exact absurd rfl (hpoint rest)

theorem numberAt_append {text whole fraction : List Char} (h : Number.Spelled text whole fraction)
    {rest : List Char} (hdigit : Stops Char.isDigit rest) (hpoint : Stops (· == '.') rest) :
    numberAt (text ++ rest) = (.number (.ofDigits whole fraction), text.length) := by
  obtain ⟨rfl | ⟨rfl, rfl⟩, _, hwhole, hfraction⟩ := h
  · have htake : (whole ++ '.' :: (fraction ++ rest)).takeWhile Char.isDigit = whole :=
      takeWhile_append hwhole (stops_cons rfl)
    have hstops : Stops (· == '.') (fraction ++ rest) := by
      cases fraction with
      | nil => exact hpoint
      | cons d ds =>
          refine stops_cons (beq_eq_false_iff_ne.mpr ?_)
          rintro rfl
          exact absurd (hfraction '.' List.mem_cons_self) (by decide)
    rw [List.append_assoc, List.cons_append]
    simp [numberAt, ← Tokens.drop_takeWhile, htake, fractionAt?_point hstops,
      takeWhile_append hfraction hdigit, Nat.add_assoc, Nat.add_comm 1]
  · have htake := takeWhile_append hwhole hdigit
    simp [numberAt, ← Tokens.drop_takeWhile, htake, fractionAt?_of_stops hpoint]

theorem cuts_number {text whole fraction : List Char} (h : Number.Spelled text whole fraction)
    {rest : List Char} (hdigit : Stops Char.isDigit rest) (hpoint : Stops (· == '.') rest)
    (allowed : Bool) : Cuts allowed text rest (.number (.ofDigits whole fraction)) := by
  have hnumber := numberAt_append h hdigit hpoint
  obtain ⟨c, more, hwhole⟩ := List.exists_cons_of_ne_nil h.whole_ne
  have hc := h.whole_digits c (hwhole ▸ List.mem_cons_self)
  obtain ⟨more, rfl⟩ : ∃ more, text = c :: more := by
    rcases h.text_eq with htext | ⟨htext, _⟩
    · exact ⟨more ++ '.' :: fraction, by rw [htext, hwhole, List.cons_append]⟩
    · exact ⟨more, by rw [htext, hwhole]⟩
  have hpair : pairAt? c (more ++ rest) = none := by
    have hpairs : ∀ entry ∈ pairs, entry.1.1.isDigit = false := by decide
    refine pairAt?_of_ne (fun entry hentry heq => ?_) _
    exact Bool.false_ne_true ((hpairs entry hentry).symm.trans (heq ▸ hc))
  refine ⟨c, more, rfl, isBlank_of_isDigit hc, ?_⟩
  simp only [lexeme, hpair, hc, Bool.or_true, if_true]
  exact congrArg Except.ok hnumber

end TreeQuery.Expr
