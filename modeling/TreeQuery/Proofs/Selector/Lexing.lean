import TreeQuery.Proofs.Selector.Spelled

/-!
Texts of selectors that are cut into given tokens. What a token is read as depends on what stands
behind it, so every lemma on a token says what that may be.
-/
namespace TreeQuery.Selector

open TreeQuery.Text

/-- The text is read as one token in front of the rest. -/
def Cuts (text rest : List Char) (kind : TokenKind) : Prop :=
  ∃ c more, text = c :: more ∧ kind ≠ .eof ∧ lexeme c (more ++ rest) = .ok (kind, text.length)

/-- The text is read as the tokens. Behind a function that takes a series, all up to the closing
parenthesis is one of them. -/
inductive Lexes : List Char → List TokenKind → Prop where
  | nil : Lexes [] []
  | token {text rest : List Char} {kind : TokenKind} {kinds : List TokenKind}
      (hkind : Cuts text rest kind) (hraw : takesRaw kind = false) (h : Lexes rest kinds) :
      Lexes (text ++ rest) (kind :: kinds)
  | series {text arg rest : List Char} {kind : TokenKind} {kinds : List TokenKind}
      (hkind : Cuts text (arg ++ ')' :: rest) kind) (hraw : takesRaw kind = true)
      (harg : ')' ∉ arg) (h : Lexes (')' :: rest) kinds) :
      Lexes (text ++ (arg ++ ')' :: rest))
        (kind :: .raw (String.ofList (trim isBlank arg)) :: kinds)

/-! ## Whole texts -/

theorem Cuts.length_pos {text rest : List Char} {kind : TokenKind} (h : Cuts text rest kind) :
    0 < text.length := by
  obtain ⟨c, more, rfl, -⟩ := h
  exact Nat.succ_pos _

theorem Cuts.ne_eof {text rest : List Char} {kind : TokenKind} (h : Cuts text rest kind) :
    kind ≠ .eof := by
  obtain ⟨_, _, _, hne, _⟩ := h
  exact hne

theorem Lexes.ne_eof {cs : List Char} {kinds : List TokenKind} (h : Lexes cs kinds) :
    ∀ kind ∈ kinds, kind ≠ .eof := by
  induction h with
  | nil => simp
  | token hkind _ _ ih => exact List.forall_mem_cons.mpr ⟨hkind.ne_eof, ih⟩
  | series hkind _ _ _ ih =>
      exact List.forall_mem_cons.mpr ⟨hkind.ne_eof, List.forall_mem_cons.mpr ⟨nofun, ih⟩⟩

/-- The scan of a text whose first token is known. -/
theorem scan_of_cuts {text rest : List Char} {kind : TokenKind} (h : Cuts text rest kind)
    {place : Place} {rounds : Nat} :
    scan (rounds + 1) false place (text ++ rest) =
      (scan rounds (takesRaw kind) (place.after text) rest >>= fun tokens =>
        .ok (⟨kind, place⟩ :: tokens)) := by
  obtain ⟨c, more, rfl, -, hlexeme⟩ := h
  have htake : (c :: (more ++ rest)).take (c :: more).length = c :: more := by
    rw [← List.cons_append, List.take_left]
  have hdrop : (c :: (more ++ rest)).drop (c :: more).length = rest := by
    rw [← List.cons_append, List.drop_left]
  rw [List.cons_append, scan]
  simp only [hlexeme, htake, hdrop]

theorem rawAt_append {arg : List Char} (h : ')' ∉ arg) (rest : List Char) :
    rawAt (arg ++ ')' :: rest) = (.raw (String.ofList (trim isBlank arg)), arg.length) := by
  have htake : (arg ++ ')' :: rest).takeWhile (· != ')') = arg := by
    refine takeWhile_append (fun c hc => ?_) (stops_cons rfl)
    rw [bne_iff_ne]
    rintro rfl
    exact h hc
  rw [rawAt, htake]

theorem scan_of_lexes {cs : List Char} {kinds : List TokenKind} (h : Lexes cs kinds)
    {rounds : Nat} (hrounds : 2 * cs.length ≤ rounds) (place : Place) :
    ∃ tokens, scan rounds false place cs = .ok tokens ∧
      tokens.map (·.kind) = kinds ++ [.eof] := by
  induction h generalizing rounds place with
  | nil =>
      refine ⟨[⟨.eof, place⟩], ?_, rfl⟩
      cases rounds <;> rfl
  | @token text rest kind kinds hkind hraw _ ih =>
      have hlength := hkind.length_pos
      rw [List.length_append] at hrounds
      obtain ⟨rounds, rfl⟩ := Nat.exists_eq_add_of_le' (show 1 ≤ rounds by omega)
      obtain ⟨tokens, hscan, hkinds⟩ := ih (show 2 * rest.length ≤ rounds by omega) (place.after text)
      refine ⟨⟨kind, place⟩ :: tokens, ?_, ?_⟩
      · rw [scan_of_cuts hkind, hraw, hscan]
        rfl
      · rw [List.map_cons, hkinds, List.cons_append]
  | @series text arg rest kind kinds hkind hraw harg _ ih =>
      have hlength := hkind.length_pos
      rw [List.length_append, List.length_append] at hrounds
      -- What stands in the parentheses takes a round of its own, also where it is empty.
      obtain ⟨rounds, rfl⟩ := Nat.exists_eq_add_of_le' (show 2 ≤ rounds by omega)
      obtain ⟨tokens, hscan, hkinds⟩ :=
        ih (show 2 * (')' :: rest).length ≤ rounds by omega) ((place.after text).after arg)
      refine ⟨⟨kind, place⟩ :: ⟨.raw (String.ofList (trim isBlank arg)), place.after text⟩ :: tokens,
        ?_, ?_⟩
      · rw [scan_of_cuts hkind, hraw, scan, rawAt_append harg]
        simp only [List.take_left, List.drop_left, hscan]
        rfl
      · simp only [List.map_cons, hkinds, List.cons_append]

/-! ## Inputs -/

namespace Input

/-- The kinds of the tokens in front. -/
def kinds (input : Input) : List TokenKind := input.ahead.map (·.kind)

@[simp] theorem length_kinds (input : Input) : input.kinds.length = input.ahead.length :=
  List.length_map _

theorem current_eq (input : Input) : input.current = input.kinds.head?.getD .eof := by
  rw [current, kinds, List.head?_map]

@[simp] theorem kinds_advance (input : Input) : input.advance.kinds = input.kinds.tail :=
  List.map_tail

@[simp] theorem kinds_skipBlanks (input : Input) :
    input.skipBlanks.kinds = input.kinds.dropWhile (· == .whitespace) := by
  rw [kinds, kinds, List.dropWhile_map]
  rfl

/-- A text that is cut into tokens is an input of them. -/
theorem ofText_of_lexes {text : String} {kinds : List TokenKind} (h : Lexes text.toList kinds) :
    ∃ input, ofText text = .ok input ∧ input.kinds = kinds := by
  obtain ⟨tokens, hscan, hkinds⟩ := scan_of_lexes h (Nat.le_succ _) Place.start
  have htokens : tokenize text = .ok tokens := hscan
  refine ⟨_, by rw [ofText, htokens]; rfl, ?_⟩
  have hkeep : ∀ kind ∈ kinds, (kind != .eof) = true := fun kind hkind => by
    rw [bne_iff_ne]
    exact h.ne_eof kind hkind
  calc (tokens.filter (·.kind != .eof)).map (·.kind)
      = (tokens.map (·.kind)).filter (· != .eof) := by rw [List.filter_map]; rfl
    _ = kinds := by
        rw [hkinds, List.filter_append, List.filter_eq_self.mpr hkeep]
        simp

end Input

/-! ## Symbols -/

theorem cuts_single {c : Char} {kind : TokenKind} (h : singles.lookup c = some kind)
    (rest : List Char) : Cuts [c] rest kind := by
  have hsingles : ∀ entry ∈ singles, isBlank entry.1 = false ∧ entry.2 ≠ .eof := by decide
  obtain ⟨hblank, hne⟩ := hsingles _ (mem_of_lookup h)
  refine ⟨c, [], rfl, hne, ?_⟩
  simp [lexeme, hblank, h]

theorem Lexes.single {c : Char} {kind : TokenKind} (h : singles.lookup c = some kind)
    {rest : List Char} {kinds : List TokenKind} (hrest : Lexes rest kinds) :
    Lexes (c :: rest) (kind :: kinds) := by
  have hsingles : ∀ entry ∈ singles, takesRaw entry.2 = false := by decide
  exact .token (cuts_single h rest) (hsingles _ (mem_of_lookup h)) hrest

/-- A star or a bar is a token of its own unless an equals sign follows. -/
theorem Lexes.alone {c : Char} {comparison kind : TokenKind}
    (h : comparisons.lookup c = some (comparison, some kind)) {rest : List Char}
    (hrest : Stops (· == '=') rest) {kinds : List TokenKind} (hlexes : Lexes rest kinds) :
    Lexes (c :: rest) (kind :: kinds) := by
  have hcomparisons : ∀ entry ∈ comparisons, isBlank entry.1 = false ∧
      singles.lookup entry.1 = none ∧ ∀ kind ∈ entry.2.2, kind ≠ .eof ∧ takesRaw kind = false := by
    decide
  obtain ⟨hblank, hsingle, halone⟩ := hcomparisons _ (mem_of_lookup h)
  obtain ⟨hne, hraw⟩ := halone kind rfl
  have hstart : startsEq rest = false := by
    rw [startsEq.eq_def]
    split
    · cases hrest '=' rfl
    · rfl
  have hcuts : Cuts [c] rest kind := ⟨c, [], rfl, hne, by simp [lexeme, hblank, hsingle, h, hstart]⟩
  exact .token hcuts hraw hlexes

/-- The token of a comparison. -/
def AttrOp.kind : AttrOp → TokenKind
  | .equals => .eq
  | .includes => .includes
  | .dashMatch => .dashMatch
  | .startsWith => .prefixMatch
  | .endsWith => .suffixMatch
  | .contains => .substring

@[simp] theorem attrOp?_kind (op : AttrOp) : attrOp? op.kind = some op := by cases op <;> rfl

theorem Lexes.comparison (op : AttrOp) {rest : List Char} {kinds : List TokenKind}
    (hlexes : Lexes rest kinds) : Lexes (op.text ++ rest) (op.kind :: kinds) := by
  have hcuts : Cuts op.text rest op.kind := by
    cases op <;> exact ⟨_, _, rfl, nofun, rfl⟩
  have hraw : takesRaw op.kind = false := by cases op <;> rfl
  exact .token hcuts hraw hlexes

/-! ## Blanks -/

theorem Blanks.stops {cs rest : List Char} (h : Blanks cs) {p : Char → Bool}
    (hp : ∀ code < 128, isBlank (Char.ofNat code) = true → p (Char.ofNat code) = false)
    (hrest : Stops p rest) : Stops p (cs ++ rest) := by
  cases cs with
  | nil => exact hrest
  | cons c cs =>
      obtain ⟨hblank, hascii⟩ := h c List.mem_cons_self
      exact stops_cons (@of_ascii (fun c => isBlank c = true → p c = false) hp c hascii hblank)

/-- The tokens of a run of blanks. -/
def blankKinds (cs : List Char) : List TokenKind := if cs = [] then [] else [.whitespace]

theorem Lexes.blanks {cs rest : List Char} (h : Blanks cs) (hrest : Stops isBlank rest)
    {kinds : List TokenKind} (hlexes : Lexes rest kinds) :
    Lexes (cs ++ rest) (blankKinds cs ++ kinds) := by
  cases cs with
  | nil => exact hlexes
  | cons c cs =>
      have htake : (c :: (cs ++ rest)).takeWhile isBlank = c :: cs :=
        takeWhile_append (fun d hd => (h d hd).1) hrest
      refine .token ⟨c, cs, rfl, nofun, ?_⟩ rfl hlexes
      rw [lexeme, if_pos (h c List.mem_cons_self).1, htake]

/-! ## Names -/

/-- A character that goes on a name, or makes a function of it. -/
def goesOn (c : Char) : Bool := isIdentChar c || c == '('

theorem stops_of_goesOn {rest : List Char} (h : Stops goesOn rest) : Stops isIdentChar rest :=
  fun c hc => (Bool.or_eq_false_iff.mp (h c hc)).1

/-- A character of names that is no blank starts a word and nothing else. -/
theorem lexeme_of_isIdentChar {c : Char} (h : isIdentChar c = true) (hblank : isBlank c = false)
    (cs : List Char) : lexeme c cs = .ok (wordAt (c :: cs)) := by
  have hne : ∀ d, isIdentChar d = false → c ≠ d := by
    rintro d hd rfl
    exact Bool.false_ne_true (hd.symm.trans h)
  have hsingles : ∀ entry ∈ singles, isIdentChar entry.1 = false := by decide
  have hcomparisons : ∀ entry ∈ comparisons, isIdentChar entry.1 = false := by decide
  have hsingle : singles.lookup c = none := List.lookup_eq_none_iff.mpr fun entry hentry => by
    simpa using hne _ (hsingles entry hentry)
  have hcomparison : comparisons.lookup c = none :=
    List.lookup_eq_none_iff.mpr fun entry hentry => by
      simpa using hne _ (hcomparisons entry hentry)
  have hhash := hne '#' rfl
  have hquote := hne '\"' rfl
  have hapostrophe := hne '\x27' rfl
  simp [lexeme, hblank, hsingle, hcomparison, hhash, hquote, hapostrophe, h]

theorem IsBareName.cons {text : String} (h : IsBareName text) :
    ∃ c more, text.toList = c :: more ∧ isIdentChar c = true ∧ isBlank c = false := by
  obtain ⟨⟨hne, hchars⟩, hblanks⟩ := h
  cases htext : text.toList with
  | nil => exact absurd (String.toList_eq_nil_iff.mp htext) hne
  | cons c more =>
      rw [htext] at hchars hblanks
      exact ⟨c, more, rfl, hchars c List.mem_cons_self, hblanks c List.mem_cons_self⟩

theorem IsIdent.identAt_append {text : String} (h : IsIdent text) {rest : List Char}
    (hrest : Stops isIdentChar rest) : identAt (text.toList ++ rest) = text.toList :=
  takeWhile_append h.2 hrest

/-- A text that starts with a name is cut as a word. -/
theorem IsBareName.cuts {text : String} (h : IsBareName text) {behind rest : List Char}
    {kind : TokenKind} (hne : kind ≠ .eof)
    (hword : wordAt (text.toList ++ behind ++ rest) = (kind, (text.toList ++ behind).length)) :
    Cuts (text.toList ++ behind) rest kind := by
  obtain ⟨c, more, htext, hc, hblank⟩ := h.cons
  rw [htext] at hword ⊢
  refine ⟨c, more ++ behind, rfl, hne, ?_⟩
  rw [lexeme_of_isIdentChar hc hblank]
  exact congrArg Except.ok hword

theorem Lexes.ident {text : String} (h : IsBareName text) {rest : List Char}
    (hrest : Stops goesOn rest) {kinds : List TokenKind} (hlexes : Lexes rest kinds) :
    Lexes (text.toList ++ rest) (.ident text :: kinds) := by
  have hcuts : Cuts (text.toList ++ []) rest (.ident text) := by
    refine h.cuts nofun ?_
    rw [List.append_nil, wordAt, h.1.identAt_append (stops_of_goesOn hrest), List.drop_left,
      String.ofList_toList]
    split
    · cases hrest '(' rfl
    · rfl
  rw [List.append_nil] at hcuts
  exact .token hcuts rfl hlexes

theorem IsBareName.cuts_function {text : String} (h : IsBareName text) (rest : List Char) :
    Cuts (text.toList ++ ['(']) rest (.function text) := by
  refine h.cuts nofun ?_
  rw [List.append_assoc, List.singleton_append, wordAt,
    h.1.identAt_append (stops_cons rfl), List.drop_left, String.ofList_toList]
  simp

theorem Lexes.hash {text : String} (h : IsIdent text) {rest : List Char}
    (hrest : Stops isIdentChar rest) {kinds : List TokenKind} (hlexes : Lexes rest kinds) :
    Lexes ('#' :: (text.toList ++ rest)) (.hash text :: kinds) := by
  have hcuts : Cuts ('#' :: text.toList) rest (.hash text) := by
    refine ⟨'#', text.toList, rfl, nofun, ?_⟩
    have hhash : lexeme '#' (text.toList ++ rest) = hashAt (text.toList ++ rest) := rfl
    rw [hhash, hashAt, h.identAt_append hrest]
    simp [h.1]
  exact .token hcuts rfl hlexes

/-! ## Quoted values -/

theorem Lexes.string {quote : Char} (hquote : quote = '\"' ∨ quote = '\x27') {value : String}
    (h : quote ∉ value.toList) {rest : List Char} {kinds : List TokenKind}
    (hlexes : Lexes rest kinds) :
    Lexes (quote :: (value.toList ++ quote :: rest)) (.string value :: kinds) := by
  have hcuts : Cuts (quote :: (value.toList ++ [quote])) rest (.string value) := by
    refine ⟨quote, value.toList ++ [quote], rfl, nofun, ?_⟩
    have hlexeme : ∀ cs, lexeme quote cs = stringAt quote cs := by
      rcases hquote with rfl | rfl <;> exact fun _ => rfl
    have htake : (value.toList ++ [quote] ++ rest).takeWhile (· != quote) = value.toList := by
      rw [List.append_assoc]
      refine takeWhile_append (fun c hc => ?_) (stops_cons (by simp))
      rw [bne_iff_ne]
      rintro rfl
      exact h hc
    rw [hlexeme, stringAt, htake, String.ofList_toList, if_pos (by simp)]
    simp
  have hlexes' := Lexes.token hcuts rfl hlexes
  simpa using hlexes'

end TreeQuery.Selector
