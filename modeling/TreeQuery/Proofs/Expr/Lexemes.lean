import TreeQuery.Proofs.Expr.Lexing

/-!
The rules of tokens, by form. `Stands` says of every form what its characters are and what may
stand behind them, so that no longer token can be read. `cuts_iff_stands`: the lexer keeps to these
rules, and nothing else in front of a text is read as a token.
-/
namespace TreeQuery.Expr

open TreeQuery.Text

/-! ## Rules -/

/-- The operator that a name is read as. -/
def operatorNamed? (operatorAllowed : Bool) (text : String) : Option TokenKind :=
  if operatorAllowed then operatorNames.lookup text else none

/-- What stands behind a colon and ends where the rest starts: a star, or a name. -/
def EndsTest (localPart : String) (rest : List Char) : Prop :=
  localPart = "*" ∨ IsName localPart ∧ Stops isNameChar rest

/-- A text stands as one token in front of the rest. -/
inductive Stands (operatorAllowed : Bool) : List Char → List Char → TokenKind → Prop where
  | pair {c d : Char} {rest : List Char} {kind : TokenKind}
      (h : pairs.lookup (c, d) = some kind) : Stands operatorAllowed [c, d] rest kind
  | single {c : Char} {rest : List Char} {kind : TokenKind} (h : singles.lookup c = some kind)
      (hpair : pairAt? c rest = none) (hpoint : c = '.' → Stops Char.isDigit rest) :
      Stands operatorAllowed [c] rest kind
  | star {rest : List Char} (h : operatorAllowed = true ∨ localPartAt? rest = none) :
      Stands operatorAllowed ['*'] rest .star
  | anyPrefixed {localPart : String} {rest : List Char} (hallowed : operatorAllowed = false)
      (hlocal : EndsTest localPart rest) :
      Stands operatorAllowed ('*' :: ':' :: localPart.toList) rest (.nameTest "*" localPart)
  | reference {name : String} {rest : List Char} (h : IsName name)
      (hrest : Stops isNameChar rest) :
      Stands operatorAllowed ('$' :: name.toList) rest (.reference name)
  | string {quote : Char} {text : String} {rest : List Char}
      (hquote : quote = '\"' ∨ quote = '\x27') (h : quote ∉ text.toList) :
      Stands operatorAllowed (quote :: (text.toList ++ [quote])) rest (.string text)
  | whole {digits rest : List Char} (hne : digits ≠ []) (h : ∀ c ∈ digits, c.isDigit = true)
      (hrest : Stops Char.isDigit rest) (hpoint : fractionAt? rest = none) :
      Stands operatorAllowed digits rest (.number (.ofDigits digits []))
  | decimal {whole fraction rest : List Char} (hne : whole ≠ [] ∨ fraction ≠ [])
      (hwhole : ∀ c ∈ whole, c.isDigit = true) (hfraction : ∀ c ∈ fraction, c.isDigit = true)
      (hrest : Stops Char.isDigit rest) (hpoint : fraction = [] → Stops (· == '.') rest) :
      Stands operatorAllowed (whole ++ '.' :: fraction) rest (.number (.ofDigits whole fraction))
  | operator {name : String} {rest : List Char} {kind : TokenKind} (h : IsName name)
      (hname : operatorNamed? operatorAllowed name = some kind) (hrest : Stops isNameChar rest) :
      Stands operatorAllowed name.toList rest kind
  | prefixed {pfx localPart : String} {rest : List Char} (hpfx : IsName pfx)
      (hname : operatorNamed? operatorAllowed pfx = none) (hlocal : EndsTest localPart rest) :
      Stands operatorAllowed (pfx.toList ++ ':' :: localPart.toList) rest
        (.nameTest pfx localPart)
  | word {text : String} {rest : List Char} (h : IsName text)
      (hname : operatorNamed? operatorAllowed text = none) (hrest : Stops isNameChar rest)
      (hlocal : localPartAt? rest = none) :
      Stands operatorAllowed text.toList rest (wordKind text rest)

/-- The token that is read at the head of a text stands there, with its width. -/
def StandsAtHead (operatorAllowed : Bool) (cs : List Char) (read : TokenKind × Nat) : Prop :=
  ∃ text rest, cs = text ++ rest ∧ read.2 = text.length ∧ Stands operatorAllowed text rest read.1

/-! ## What is read keeps to the rules -/

theorem stops_dropWhile (p : Char → Bool) (cs : List Char) : Stops p (cs.dropWhile p) := by
  intro c hc
  have hhead := List.head?_dropWhile_not p cs
  rw [Option.mem_def.mp hc] at hhead
  simpa using hhead

/-- A name in front of a text, and the rest behind it. -/
theorem exists_name {cs : List Char} (h : startsName cs = true) :
    ∃ name rest, cs = name.toList ++ rest ∧ nameAt cs = name.toList ∧ IsName name ∧
      Stops isNameChar rest := by
  refine ⟨String.ofList (nameAt cs), cs.dropWhile isNameChar, ?_, ?_, isName_nameAt h,
    stops_dropWhile _ _⟩
  · rw [String.toList_ofList, nameAt, List.takeWhile_append_dropWhile]
  · rw [String.toList_ofList]

theorem endsTest_of_localPartAt? {cs localPart : List Char} (h : localPartAt? cs = some localPart) :
    ∃ rest, cs = ':' :: (localPart ++ rest) ∧ EndsTest (String.ofList localPart) rest := by
  unfold localPartAt? at h
  split at h
  · cases h
    exact ⟨_, rfl, .inl rfl⟩
  · split at h
    · rename_i hstart
      cases h
      obtain ⟨name, rest, hcs, hname, hisName, hrest⟩ := exists_name hstart
      rw [hname, String.ofList_toList]
      exact ⟨rest, by rw [hcs], .inr ⟨hisName, hrest⟩⟩
    · cases h
  · cases h

theorem fractionAt?_eq_some {cs fraction : List Char} (h : fractionAt? cs = some fraction) :
    ∃ more, cs = '.' :: more ∧ Stops (· == '.') more ∧ more.takeWhile Char.isDigit = fraction := by
  unfold fractionAt? at h
  split at h
  · cases h
  · rename_i more hpoint
    cases h
    refine ⟨more, rfl, ?_, rfl⟩
    cases more with
    | nil => simp [Stops]
    | cons d more => exact stops_cons (beq_eq_false_iff_ne.mpr fun hd => hpoint more (by rw [hd]))
  · cases h

theorem takeWhile_ne_nil {p : Char → Bool} {c : Char} (cs : List Char) (h : p c = true) :
    (c :: cs).takeWhile p ≠ [] := by
  rw [List.takeWhile_cons_of_pos h]
  exact List.cons_ne_nil _ _

/-- A number is read where a digit is in front, or a point with a digit behind it. -/
theorem stands_numberAt {operatorAllowed : Bool} {c : Char} {cs : List Char}
    (h : c = '.' ∧ startsDigit cs = true ∨ c.isDigit = true) :
    StandsAtHead operatorAllowed (c :: cs) (numberAt (c :: cs)) := by
  have hwhole : ∀ c' ∈ (c :: cs).takeWhile Char.isDigit, c'.isDigit = true :=
    List.all_eq_true.mp List.all_takeWhile
  have hsplit := (List.takeWhile_append_dropWhile (p := Char.isDigit) (l := c :: cs)).symm
  rw [numberAt]
  split
  · rename_i fraction hfraction
    obtain ⟨more, hrest, hpoint, rfl⟩ := fractionAt?_eq_some hfraction
    have hmore := List.takeWhile_append_dropWhile (p := Char.isDigit) (l := more)
    refine ⟨_ ++ '.' :: more.takeWhile Char.isDigit, more.dropWhile Char.isDigit, ?_, ?_,
      .decimal ?_ hwhole (List.all_eq_true.mp List.all_takeWhile) (stops_dropWhile _ _) ?_⟩
    · rw [List.append_assoc, List.cons_append, hmore, ← hrest]
      exact hsplit
    · simp [Nat.add_assoc, Nat.add_comm 1]
    · rcases h with ⟨rfl, hdigit⟩ | hdigit
      · obtain rfl : cs = more := (List.cons.inj hrest).2
        cases cs with
        | nil => cases hdigit
        | cons d ds => exact .inr (takeWhile_ne_nil ds hdigit)
      · exact .inl (takeWhile_ne_nil cs hdigit)
    · intro hnil
      rw [hnil, List.nil_append] at hmore
      rwa [hmore]
  · rename_i hfraction
    refine ⟨_, _, hsplit, rfl, .whole ?_ hwhole (stops_dropWhile _ _) hfraction⟩
    rcases h with ⟨rfl, hdigit⟩ | hdigit
    · cases cs with
      | nil => cases hdigit
      | cons d ds =>
          have hpoint : Stops (· == '.') (d :: ds) := by
            refine stops_cons (beq_eq_false_iff_ne.mpr ?_)
            rintro rfl
            cases hdigit
          cases (fractionAt?_point hpoint).symm.trans hfraction
    · exact takeWhile_ne_nil cs hdigit

theorem stands_starAt {operatorAllowed : Bool} {cs : List Char} :
    StandsAtHead operatorAllowed ('*' :: cs) (starAt operatorAllowed cs) := by
  cases operatorAllowed with
  | true => exact ⟨['*'], cs, rfl, rfl, .star (.inl rfl)⟩
  | false =>
      simp only [starAt]
      split
      · rename_i localPart _ hlocal
        obtain ⟨rest, rfl, hends⟩ := endsTest_of_localPartAt? hlocal
        have hstands := @Stands.anyPrefixed false _ _ rfl hends
        rw [String.toList_ofList] at hstands
        exact ⟨'*' :: ':' :: localPart, rest, rfl, Nat.add_comm _ _, hstands⟩
      · rename_i hother
        refine ⟨['*'], cs, rfl, rfl, .star (.inr ?_)⟩
        exact Option.eq_none_iff_forall_ne_some.mpr fun localPart hlocal =>
          hother localPart rfl hlocal

/-- A string literal that is read is closed by its quote. -/
theorem stands_stringAt {operatorAllowed : Bool} {quote : Char} {cs : List Char}
    {read : TokenKind × Nat} (hquote : quote = '\"' ∨ quote = '\x27')
    (h : stringAt quote cs = .ok read) : StandsAtHead operatorAllowed (quote :: cs) read := by
  have hsplit := List.takeWhile_append_dropWhile (p := (· != quote)) (l := cs)
  have hstops := stops_dropWhile (· != quote) cs
  have hout : quote ∉ cs.takeWhile (· != quote) := fun hmem => by
    simpa using List.all_eq_true.mp List.all_takeWhile quote hmem
  rw [stringAt] at h
  split at h
  · rename_i hshort
    cases h
    cases hrest : cs.dropWhile (· != quote) with
    | nil =>
        rw [hrest, List.append_nil] at hsplit
        rw [hsplit] at hshort
        exact absurd hshort (Nat.lt_irrefl _)
    | cons d rest =>
        rw [hrest] at hsplit hstops
        obtain rfl : d = quote := by simpa using hstops d rfl
        rw [← String.toList_ofList (l := cs.takeWhile (· != d))] at hout
        have hstands := @Stands.string operatorAllowed _ _ rest hquote hout
        rw [String.toList_ofList] at hstands
        exact ⟨d :: (cs.takeWhile (· != d) ++ [d]), rest, by simp [hsplit], by simp, hstands⟩
  · cases h

theorem stands_wordAt {operatorAllowed : Bool} {cs : List Char} (h : startsName cs = true) :
    StandsAtHead operatorAllowed cs (wordAt operatorAllowed cs) := by
  obtain ⟨name, rest, rfl, hname, hisName, hrest⟩ := exists_name h
  simp only [wordAt, hname, List.drop_left, String.ofList_toList]
  split
  · rename_i kind hkind
    exact ⟨name.toList, rest, rfl, rfl, .operator hisName hkind hrest⟩
  · rename_i localPart hkind hlocal
    obtain ⟨rest, rfl, hends⟩ := endsTest_of_localPartAt? hlocal
    have hstands := Stands.prefixed hisName hkind hends
    rw [String.toList_ofList] at hstands
    exact ⟨name.toList ++ ':' :: localPart, rest, by simp, by simp [Nat.add_assoc, Nat.add_comm 1],
      hstands⟩
  · rename_i hkind hlocal
    exact ⟨name.toList, rest, rfl, rfl, .word hisName hkind hrest hlocal⟩

theorem stands_of_lexeme {operatorAllowed : Bool} {c : Char} {cs : List Char}
    {read : TokenKind × Nat} (h : lexeme operatorAllowed c cs = .ok read) :
    StandsAtHead operatorAllowed (c :: cs) read := by
  rw [lexeme] at h
  split at h
  · rename_i hpair
    cases h
    cases cs with
    | nil => cases hpair
    | cons d cs => exact ⟨[c, d], cs, rfl, rfl, .pair hpair⟩
  rename_i hpair
  split at h
  · rename_i hnumber
    exact Except.ok.inj h ▸ stands_numberAt (by simpa using hnumber)
  rename_i hnumber
  split at h
  · rename_i hsingle
    cases h
    refine ⟨[c], cs, rfl, rfl, .single hsingle hpair ?_⟩
    rintro rfl d hd
    obtain ⟨more, rfl⟩ := List.head?_eq_some_iff.mp (Option.mem_def.mp hd)
    simpa [startsDigit] using hnumber
  split at h
  · rename_i hstar
    obtain rfl := beq_iff_eq.mp hstar
    exact Except.ok.inj h ▸ stands_starAt
  split at h
  · rename_i hdollar
    split at h
    · rename_i hstart
      cases h
      obtain rfl := beq_iff_eq.mp hdollar
      obtain ⟨name, rest, rfl, hname, hisName, hrest⟩ := exists_name hstart
      rw [hname, String.ofList_toList]
      exact ⟨'$' :: name.toList, rest, rfl, Nat.add_comm _ _, .reference hisName hrest⟩
    · cases h
  split at h
  · rename_i hquote
    exact stands_stringAt (by simpa using hquote) h
  split at h
  · rename_i hstart
    exact Except.ok.inj h ▸ stands_wordAt hstart
  · cases h

/-! ## What keeps to the rules is read -/

section
variable {operatorAllowed : Bool} {text rest : List Char} {kind : TokenKind}

theorem localPartAt?_of_endsTest {localPart : String} (h : EndsTest localPart rest) :
    localPartAt? (':' :: (localPart.toList ++ rest)) = some localPart.toList := by
  rcases h with rfl | ⟨hlocal, hrest⟩
  · rfl
  · exact localPartAt?_append (.inr hlocal) hrest

theorem startsDigit_eq_false_iff {cs : List Char} :
    startsDigit cs = false ↔ Stops Char.isDigit cs := by
  cases cs with
  | nil => simp [startsDigit, Stops]
  | cons c cs => simp [startsDigit, Stops]

theorem pairAt?_point {cs : List Char} (h : Stops (· == '.') cs) : pairAt? '.' cs = none := by
  cases cs with
  | nil => rfl
  | cons d cs =>
      have hd : d ≠ '.' := beq_eq_false_iff_ne.mp (h d rfl)
      rw [pairAt?, List.lookup_eq_none_iff]
      simp [pairs, hd]

theorem stops_point_of_isDigit {c : Char} (h : c.isDigit = true) (cs : List Char) :
    Stops (· == '.') (c :: cs) := by
  refine stops_cons (beq_eq_false_iff_ne.mpr ?_)
  rintro rfl
  cases h

theorem pairAt?_of_isDigit {c : Char} (h : c.isDigit = true) (cs : List Char) :
    pairAt? c cs = none := by
  have hpairs : ∀ entry ∈ pairs, entry.1.1.isDigit = false := by decide
  exact pairAt?_of_ne (fun entry hentry heq =>
    Bool.false_ne_true ((hpairs entry hentry).symm.trans (heq ▸ h))) cs

theorem Cuts.of_numberAt {c : Char} {more : List Char}
    (h : c = '.' ∧ startsDigit (more ++ rest) = true ∨ c.isDigit = true)
    (hnumber : numberAt (c :: (more ++ rest)) = (kind, (c :: more).length)) :
    Cuts operatorAllowed (c :: more) rest kind := by
  have hread : (c == '.' && startsDigit (more ++ rest) || c.isDigit) = true := by simpa using h
  obtain ⟨hpair, hblank⟩ : pairAt? c (more ++ rest) = none ∧ isBlank c = false := by
    rcases h with ⟨rfl, hdigit⟩ | hdigit
    · refine ⟨pairAt?_point ?_, rfl⟩
      cases hmore : more ++ rest with
      | nil => simp [Stops]
      | cons d ds => exact stops_point_of_isDigit (by rwa [hmore] at hdigit) ds
    · exact ⟨pairAt?_of_isDigit hdigit _, isBlank_of_isDigit hdigit⟩
  refine ⟨c, more, rfl, hblank, ?_⟩
  simp only [lexeme, hpair, hread, if_true, hnumber]

theorem cuts_whole {digits : List Char} (hne : digits ≠ []) (h : ∀ c ∈ digits, c.isDigit = true)
    (hrest : Stops Char.isDigit rest) (hpoint : fractionAt? rest = none) :
    Cuts operatorAllowed digits rest (.number (.ofDigits digits [])) := by
  have htake : (digits ++ rest).takeWhile Char.isDigit = digits := takeWhile_append h hrest
  have hnumber : numberAt (digits ++ rest) = (.number (.ofDigits digits []), digits.length) := by
    simp [numberAt, ← Tokens.drop_takeWhile, htake, hpoint]
  obtain ⟨c, more, rfl⟩ := List.exists_cons_of_ne_nil hne
  exact .of_numberAt (.inr (h c List.mem_cons_self)) hnumber

theorem cuts_decimal {whole fraction : List Char} (hne : whole ≠ [] ∨ fraction ≠ [])
    (hwhole : ∀ c ∈ whole, c.isDigit = true) (hfraction : ∀ c ∈ fraction, c.isDigit = true)
    (hrest : Stops Char.isDigit rest) (hpoint : fraction = [] → Stops (· == '.') rest) :
    Cuts operatorAllowed (whole ++ '.' :: fraction) rest (.number (.ofDigits whole fraction)) := by
  have hstops : Stops (· == '.') (fraction ++ rest) := by
    cases fraction with
    | nil => exact hpoint rfl
    | cons d ds => exact stops_point_of_isDigit (hfraction d List.mem_cons_self) _
  have htake : (whole ++ '.' :: (fraction ++ rest)).takeWhile Char.isDigit = whole :=
    takeWhile_append hwhole (stops_cons rfl)
  have hnumber : numberAt (whole ++ '.' :: (fraction ++ rest)) =
      (.number (.ofDigits whole fraction), (whole ++ '.' :: fraction).length) := by
    simp [numberAt, ← Tokens.drop_takeWhile, htake, fractionAt?_point hstops,
      takeWhile_append hfraction hrest, Nat.add_assoc, Nat.add_comm 1]
  cases whole with
  | nil =>
      obtain ⟨d, ds, rfl⟩ := List.exists_cons_of_ne_nil (hne.resolve_left (not_not_intro rfl))
      exact .of_numberAt (.inl ⟨rfl, hfraction d List.mem_cons_self⟩) hnumber
  | cons c more =>
      rw [List.cons_append]
      refine .of_numberAt (.inr (hwhole c List.mem_cons_self)) ?_
      simpa only [List.append_assoc, List.cons_append] using hnumber

theorem cuts_of_starAt {more : List Char}
    (h : starAt operatorAllowed (more ++ rest) = (kind, ('*' :: more).length)) :
    Cuts operatorAllowed ('*' :: more) rest kind := by
  have hpair : pairAt? '*' (more ++ rest) = none := by cases more ++ rest <;> rfl
  have hsingle : singles.lookup '*' = none := rfl
  exact ⟨'*', more, rfl, rfl, by simp [lexeme, hpair, hsingle, h]⟩

/-- A token that stands in front of a text is read there. -/
theorem Stands.cuts (h : Stands operatorAllowed text rest kind) :
    Cuts operatorAllowed text rest kind := by
  cases h with
  | @pair c d _ _ h =>
      have hpairs : ∀ entry ∈ pairs, isBlank entry.1.1 = false := by decide
      exact ⟨c, [d], rfl, hpairs _ (mem_of_lookup h), by simp [lexeme, pairAt?, h]⟩
  | @single c _ _ h hpair hpoint =>
      have hsingles : ∀ entry ∈ singles, entry.1.isDigit = false ∧ isBlank entry.1 = false := by
        decide
      obtain ⟨hdigit, hblank⟩ := hsingles _ (mem_of_lookup h)
      have hstarts : ¬(c = '.' ∧ startsDigit rest = true) := fun hread =>
        Bool.false_ne_true ((startsDigit_eq_false_iff.mpr (hpoint hread.1)).symm.trans hread.2)
      exact ⟨c, [], rfl, hblank, by simp [lexeme, hpair, hdigit, h, hstarts]⟩
  | star h =>
      refine @cuts_of_starAt operatorAllowed rest .star [] ?_
      rcases h with rfl | h
      · simp [starAt]
      · simp [starAt, h]
  | anyPrefixed hallowed hlocal =>
      subst hallowed
      refine cuts_of_starAt ?_
      simp [starAt, localPartAt?_of_endsTest hlocal, Nat.add_comm 2]
  | reference h hrest => exact cuts_reference h hrest _
  | string hquote h => exact cuts_quoted hquote h _ _
  | whole hne h hrest hpoint => exact cuts_whole hne h hrest hpoint
  | decimal hne hwhole hfraction hrest hpoint =>
      exact cuts_decimal hne hwhole hfraction hrest hpoint
  | @operator name _ _ h hname hrest =>
      have hcuts := @cuts_of_wordAt name h [] rest kind operatorAllowed
      rw [List.append_nil] at hcuts
      refine hcuts ?_
      rw [operatorNamed?] at hname
      simp [wordAt, nameAt_append h hrest, hname]
  | @prefixed pfx localPart _ hpfx hname hlocal =>
      refine cuts_of_wordAt hpfx ?_
      rw [operatorNamed?] at hname
      have hcolon : Stops isNameChar (':' :: (localPart.toList ++ rest)) := stops_cons rfl
      simp [wordAt, nameAt_append hpfx hcolon, hname, localPartAt?_of_endsTest hlocal,
        Nat.add_assoc, Nat.add_comm 1]
  | @word text _ h hname hrest hlocal =>
      have hcuts := @cuts_of_wordAt text h [] rest (wordKind text rest) operatorAllowed
      rw [List.append_nil] at hcuts
      refine hcuts ?_
      rw [operatorNamed?] at hname
      simp [wordAt, nameAt_append h hrest, hname, hlocal]

/-- What is read as one token in front of a text is what may stand there. -/
theorem cuts_iff_stands :
    Cuts operatorAllowed text rest kind ↔ Stands operatorAllowed text rest kind := by
  refine ⟨?_, Stands.cuts⟩
  rintro ⟨c, more, rfl, _, hlexeme⟩
  obtain ⟨text, rest', heq, hwidth, hstands⟩ := stands_of_lexeme hlexeme
  obtain ⟨rfl, rfl⟩ := List.append_inj heq hwidth
  exact hstands

end

end TreeQuery.Expr
