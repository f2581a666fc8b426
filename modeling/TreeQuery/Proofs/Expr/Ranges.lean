import Mathlib.Data.List.Induction
import TreeQuery.Proofs.Expr.Lexemes

/-!
Where tokens stand. The tokens of a text are read from ranges of its characters, one behind the
other, and what lies outside the ranges is blank. A token has the place of the first character of
its range, and an error that of the first character that starts no token.
-/
namespace TreeQuery.Text

/-! ## Places and ranges -/

/-- One more than the line feeds in front of an offset. -/
def lineAt (cs : List Char) (offset : Nat) : Nat := 1 + (cs.take offset).count '\n'

/-- One more than the characters in front of an offset and behind the last line feed there. -/
def columnAt (cs : List Char) (offset : Nat) : Nat :=
  1 + ((cs.take offset).reverse.takeWhile (· != '\n')).length

/-- The place of an offset, as far as words of 32 bits count. -/
def placeAt (cs : List Char) (offset : Nat) : Place :=
  ⟨.ofNat (lineAt cs offset), .ofNat (columnAt cs offset)⟩

theorem lineAt_le (cs : List Char) (offset : Nat) : lineAt cs offset ≤ cs.length + 1 := by
  have hcount := (cs.take offset).count_le_length (a := '\n')
  have htake := cs.length_take_le' offset
  rw [lineAt]
  omega

theorem columnAt_le (cs : List Char) (offset : Nat) : columnAt cs offset ≤ cs.length + 1 := by
  have hcount := (List.takeWhile_sublist (· != '\n') (l := (cs.take offset).reverse)).length_le
  have htake := cs.length_take_le' offset
  rw [List.length_reverse] at hcount
  rw [columnAt]
  omega

/-- In a text that is shorter than words of 32 bits count, places are not cut. -/
theorem toNat_placeAt {cs : List Char} (h : cs.length + 1 < UInt32.size) (offset : Nat) :
    (placeAt cs offset).line.toNat = lineAt cs offset ∧
      (placeAt cs offset).column.toNat = columnAt cs offset :=
  ⟨UInt32.toNat_ofNat_of_lt' (Nat.lt_of_le_of_lt (lineAt_le cs offset) h),
    UInt32.toNat_ofNat_of_lt' (Nat.lt_of_le_of_lt (columnAt_le cs offset) h)⟩

theorem Place.after_start (cs : List Char) : Place.start.after cs =
    ⟨.ofNat (1 + cs.count '\n'), .ofNat (1 + (cs.reverse.takeWhile (· != '\n')).length)⟩ := by
  induction cs using List.reverseRecOn with
  | nil => rfl
  | append_singleton cs c ih =>
      rw [Place.after_append, ih]
      by_cases hc : c = '\n'
      · simp [Place.past, hc, UInt32.ofNat_add, UInt32.add_assoc]
      · simp [Place.past, hc, UInt32.ofNat_add, UInt32.add_assoc]

theorem placeAt_eq (cs : List Char) (offset : Nat) :
    placeAt cs offset = Place.start.after (cs.take offset) :=
  (Place.after_start _).symm

theorem placeAt_zero (cs : List Char) : placeAt cs 0 = .start := by
  rw [placeAt_eq, List.take_zero, Place.after_nil]

/-- Offsets from one up to another. -/
structure Range where
  start : Nat
  stop : Nat
deriving DecidableEq

namespace Range

/-- The characters of a range. -/
def of (r : Range) (cs : List Char) : List Char := (cs.drop r.start).take (r.stop - r.start)

variable {r : Range} {cs : List Char} {c : Char}

theorem of_append_drop (h : r.start ≤ r.stop) (cs : List Char) :
    r.of cs ++ cs.drop r.stop = cs.drop r.start := by
  obtain ⟨width, hstop⟩ := Nat.exists_eq_add_of_le h
  rw [of, hstop, ← List.drop_drop, Nat.add_sub_cancel_left, List.take_append_drop]

theorem length_of (h : r.stop ≤ cs.length) : (r.of cs).length = r.stop - r.start := by
  rw [of, List.length_take, List.length_drop]
  omega

theorem mem_of_of_getElem? {i : Nat} (hi : cs[i]? = some c) (hstart : r.start ≤ i)
    (hstop : i < r.stop) : c ∈ r.of cs := by
  obtain ⟨k, rfl⟩ := Nat.exists_eq_add_of_le hstart
  refine List.mem_of_getElem? (i := k) ?_
  rw [of, List.getElem?_take_of_lt (by omega), List.getElem?_drop, hi]

end Range

section
variable {cs text rest : List Char} {offset : Nat} (h : cs.drop offset = text ++ rest)
include h

theorem drop_of_append : cs.drop (offset + text.length) = rest := by
  rw [← List.drop_drop, h, List.drop_left]

theorem of_of_append : Range.of ⟨offset, offset + text.length⟩ cs = text := by
  rw [Range.of, h, Nat.add_sub_cancel_left, List.take_left]

theorem after_of_append : (placeAt cs offset).after text = placeAt cs (offset + text.length) := by
  rw [placeAt_eq, placeAt_eq, ← Place.after_append, List.take_add, h, List.take_left]

theorem length_of_append (hoffset : offset ≤ cs.length) :
    offset + text.length + rest.length = cs.length := by
  have hlength := congrArg List.length h
  rw [List.length_drop, List.length_append] at hlength
  omega

end

end TreeQuery.Text

namespace TreeQuery.Expr

open TreeQuery.Text

/-! ## What tokens spell -/

/-- The characters of a token that carries nothing. -/
def TokenKind.sign : TokenKind → String
  | slash => "/"
  | doubleSlash => "//"
  | dot => "."
  | doubleDot => ".."
  | atSign => "@"
  | pipe => "|"
  | plus => "+"
  | minus => "-"
  | star => "*"
  | eq => "="
  | notEq => "!="
  | lt => "<"
  | ltEq => "<="
  | gt => ">"
  | gtEq => ">="
  | and => "and"
  | or => "or"
  | mod => "mod"
  | div => "div"
  | leftParen => "("
  | rightParen => ")"
  | leftBracket => "["
  | rightBracket => "]"
  | doubleColon => "::"
  | comma => ","
  | _ => ""

/-- The characters spell the token, and all that it carries. -/
def TokenKind.SpelledBy (cs : List Char) : TokenKind → Prop
  | number value => ∃ whole fraction, (cs = whole ++ '.' :: fraction ∨ cs = whole ∧ fraction = []) ∧
      (∀ c ∈ whole ++ fraction, c.isDigit = true) ∧ value = .ofDigits whole fraction
  | string text => ∃ quote, (quote = '\"' ∨ quote = '\x27') ∧ quote ∉ text.toList ∧
      cs = quote :: (text.toList ++ [quote])
  | name text | nodeType text | axis text => cs = text.toList
  | nameTest pfx localPart => cs = pfx.toList ++ ':' :: localPart.toList
  | reference text => cs = '$' :: text.toList
  | kind => cs = kind.sign.toList

theorem spelledBy_pairs : ∀ entry ∈ pairs, entry.2.SpelledBy [entry.1.1, entry.1.2] := by
  simp [pairs, TokenKind.SpelledBy, TokenKind.sign]

theorem spelledBy_singles : ∀ entry ∈ singles, entry.2.SpelledBy [entry.1] := by
  simp [singles, TokenKind.SpelledBy, TokenKind.sign]

theorem spelledBy_operatorNames : ∀ entry ∈ operatorNames, entry.2.SpelledBy entry.1.toList := by
  simp [operatorNames, TokenKind.SpelledBy, TokenKind.sign]

theorem spelledBy_wordKind (text : String) (rest : List Char) :
    (wordKind text rest).SpelledBy text.toList := by
  unfold wordKind
  split
  · rfl
  · split <;> rfl
  · rfl

theorem Stands.spelledBy {operatorAllowed : Bool} {text rest : List Char} {kind : TokenKind}
    (h : Stands operatorAllowed text rest kind) : kind.SpelledBy text := by
  cases h with
  | pair h => exact spelledBy_pairs _ (mem_of_lookup h)
  | single h => exact spelledBy_singles _ (mem_of_lookup h)
  | star => rfl
  | anyPrefixed => rfl
  | reference => rfl
  | string hquote h => exact ⟨_, hquote, h, rfl⟩
  | whole _ h => exact ⟨text, [], .inr ⟨rfl, rfl⟩, by simpa using h, rfl⟩
  | decimal _ hwhole hfraction =>
      refine ⟨_, _, .inl rfl, ?_, rfl⟩
      exact fun c hc => (List.mem_append.mp hc).elim (hwhole c) (hfraction c)
  | operator _ hname =>
      rw [operatorNamed?] at hname
      split at hname
      · exact spelledBy_operatorNames _ (mem_of_lookup hname)
      · cases hname
  | prefixed => rfl
  | word => exact spelledBy_wordKind _ _

/-! ## Ranges of tokens -/

/-- Whether an operator can stand behind tokens. -/
def allowsOperatorBehind (operatorAllowed : Bool) (kinds : List TokenKind) : Bool :=
  kinds.foldl TokenKind.allowsOperator operatorAllowed

/-- From an offset on, the tokens are read from the ranges, with nothing but blanks in front of
each and behind the last one. -/
inductive Covers (cs : List Char) (upto : Nat) : Bool → Nat → List Token → List Range → Prop where
  | nil {operatorAllowed : Bool} {offset : Nat} (hle : offset ≤ upto)
      (hblank : ∀ c ∈ Range.of ⟨offset, upto⟩ cs, isBlank c = true) :
      Covers cs upto operatorAllowed offset [] []
  | cons {operatorAllowed : Bool} {offset : Nat} {token : Token} {tokens : List Token} {r : Range}
      {ranges : List Range} (hle : offset ≤ r.start)
      (hblank : ∀ c ∈ Range.of ⟨offset, r.start⟩ cs, isBlank c = true) (hlt : r.start < r.stop)
      (hcuts : Cuts operatorAllowed (r.of cs) (cs.drop r.stop) token.kind)
      (hplace : token.place = placeAt cs r.start)
      (h : Covers cs upto (token.kind.allowsOperator operatorAllowed) r.stop tokens ranges) :
      Covers cs upto operatorAllowed offset (token :: tokens) (r :: ranges)

/-- How reading ends at an offset: with the text, or at a character that starts no token. -/
inductive StopsAt (cs : List Char) (operatorAllowed : Bool) : Nat → Except QueryError Place → Prop
  where
  | finish : StopsAt cs operatorAllowed cs.length (.ok (placeAt cs cs.length))
  | fault {offset : Nat} {c : Char} {fault : Fault} (hc : cs[offset]? = some c)
      (hblank : isBlank c = false)
      (h : lexeme operatorAllowed c (cs.drop (offset + 1)) = .error fault) :
      StopsAt cs operatorAllowed offset (.error (.parse fault (placeAt cs offset)))

namespace Tokens

variable {operatorAllowed : Bool} {place : Place}

theorem scan_nil (rounds : Nat) : scan rounds operatorAllowed place [] = ⟨[], .ok place⟩ := by
  rw [scan.eq_def]
  rfl

theorem scan_blanks {bs : List Char} (hblank : ∀ c ∈ bs, isBlank c = true) (rounds : Nat)
    (cs : List Char) : scan rounds operatorAllowed place (bs ++ cs) =
      scan rounds operatorAllowed (place.after bs) cs := by
  induction bs generalizing place with
  | nil => rfl
  | cons b bs ih =>
      obtain ⟨hb, hbs⟩ := List.forall_mem_cons.mp hblank
      rw [List.cons_append, scan_blank hb, ih hbs, Place.after_cons]

theorem scan_of_fault {c : Char} {cs : List Char} {fault : Fault} (hblank : isBlank c = false)
    (h : lexeme operatorAllowed c cs = .error fault) (rounds : Nat) :
    scan (rounds + 1) operatorAllowed place (c :: cs) = ⟨[], .error (.parse fault place)⟩ := by
  rw [scan.eq_def]
  simp only [List.takeWhile_cons_of_neg (Bool.eq_false_iff.mp hblank), List.length_nil,
    List.drop_zero, Place.after_nil, h]

theorem scan_of_cuts {text rest : List Char} {kind : TokenKind}
    (h : Cuts operatorAllowed text rest kind) (rounds : Nat) :
    scan (rounds + 1) operatorAllowed place (text ++ rest) =
      (scan rounds (kind.allowsOperator operatorAllowed) (place.after text) rest).push
        ⟨kind, place⟩ := by
  obtain ⟨c, more, rfl, hblank, hlexeme⟩ := h
  have htake : (c :: (more ++ rest)).take (c :: more).length = c :: more := List.take_left
  have hdrop : (c :: (more ++ rest)).drop (c :: more).length = rest := List.drop_left
  rw [scan.eq_def]
  simp only [List.cons_append, List.takeWhile_cons_of_neg (Bool.eq_false_iff.mp hblank),
    List.length_nil, List.drop_zero, Place.after_nil, hlexeme, htake, hdrop]

/-- A text without blanks in front ends, starts no token, or starts with one. -/
theorem cuts_cases {cs : List Char} (h : Stops isBlank cs) (operatorAllowed : Bool) :
    cs = [] ∨ (∃ c more fault, cs = c :: more ∧ isBlank c = false ∧
        lexeme operatorAllowed c more = .error fault) ∨
      ∃ text rest kind, cs = text ++ rest ∧ Cuts operatorAllowed text rest kind := by
  cases cs with
  | nil => exact .inl rfl
  | cons c more =>
      have hblank : isBlank c = false := h c rfl
      cases hlexeme : lexeme operatorAllowed c more with
      | error fault => exact .inr (.inl ⟨c, more, fault, rfl, hblank, hlexeme⟩)
      | ok read =>
          obtain ⟨text, rest, hcs, _, hstands⟩ := stands_of_lexeme hlexeme
          exact .inr (.inr ⟨text, rest, read.1, hcs, hstands.cuts⟩)

end Tokens

theorem Cuts.length_pos {operatorAllowed : Bool} {text rest : List Char} {kind : TokenKind}
    (h : Cuts operatorAllowed text rest kind) : 0 < text.length := by
  obtain ⟨c, more, rfl, _⟩ := h
  exact Nat.succ_pos _

/-- From an offset on, all tokens have their ranges, and reading ends behind them. -/
theorem exists_covers_scan {cs : List Char} {rounds offset : Nat} (hoffset : offset ≤ cs.length)
    (hrounds : cs.length ≤ offset + rounds) (operatorAllowed : Bool) {ts : Tokens}
    (hts : Tokens.scan rounds operatorAllowed (placeAt cs offset) (cs.drop offset) = ts) :
    ∃ ranges upto, Covers cs upto operatorAllowed offset ts.ahead ranges ∧
      StopsAt cs (allowsOperatorBehind operatorAllowed ts.kinds) upto ts.stop := by
  subst hts
  induction rounds generalizing offset operatorAllowed with
  | zero =>
      obtain rfl : offset = cs.length := by omega
      rw [List.drop_length, Tokens.scan_nil]
      exact ⟨[], cs.length, .nil (Nat.le_refl _) (by simp [Range.of]), .finish⟩
  | succ rounds ih =>
      have hdrop : cs.drop offset = _ ++ _ :=
        (List.takeWhile_append_dropWhile (p := isBlank) (l := cs.drop offset)).symm
      have hblanks : ∀ c ∈ (cs.drop offset).takeWhile isBlank, isBlank c = true :=
        List.all_eq_true.mp List.all_takeWhile
      have hstops := stops_dropWhile isBlank (cs.drop offset)
      generalize (cs.drop offset).takeWhile isBlank = blanks at hdrop hblanks
      generalize (cs.drop offset).dropWhile isBlank = here at hdrop hstops
      have hlength := length_of_append hdrop hoffset
      have hhere := drop_of_append hdrop
      have hle := Nat.le_add_right offset blanks.length
      rw [hdrop, Tokens.scan_blanks hblanks, after_of_append hdrop]
      rw [← of_of_append hdrop] at hblanks
      generalize offset + blanks.length = start at *
      obtain rfl | ⟨c, more, fault, rfl, hblank, hfault⟩ | ⟨text, rest, kind, rfl, hcuts⟩ :=
        Tokens.cuts_cases hstops operatorAllowed
      · obtain rfl : start = cs.length := hlength
        rw [Tokens.scan_nil]
        exact ⟨[], cs.length, .nil hle hblanks, .finish⟩
      · rw [Tokens.scan_of_fault hblank hfault]
        refine ⟨[], start, .nil hle hblanks, .fault ?_ hblank ?_⟩
        · rw [← Nat.add_zero start, ← List.getElem?_drop, hhere]
          rfl
        · rwa [← List.drop_drop, hhere, List.drop_one, List.tail_cons]
      · have hpos := hcuts.length_pos
        rw [List.length_append] at hlength
        obtain ⟨ranges, upto, hcovers, hstop⟩ := @ih (start + text.length) (by omega) (by omega)
          (kind.allowsOperator operatorAllowed)
        rw [drop_of_append hhere, ← after_of_append hhere] at hcovers hstop
        rw [Tokens.scan_of_cuts hcuts]
        refine ⟨⟨start, start + text.length⟩ :: ranges, upto, .cons hle hblanks ?_ ?_ rfl hcovers,
          hstop⟩
        · exact Nat.lt_add_of_pos_right hpos
        · rwa [of_of_append hhere, drop_of_append hhere]

/-! ## Ranges in order -/

section
variable {cs : List Char} {upto offset : Nat} {operatorAllowed : Bool} {tokens : List Token}
  {ranges : List Range}

theorem Covers.offset_le (h : Covers cs upto operatorAllowed offset tokens ranges) :
    offset ≤ upto := by
  induction h with
  | nil hle => exact hle
  | cons hle _ hlt _ _ _ ih => omega

theorem Covers.within (h : Covers cs upto operatorAllowed offset tokens ranges) :
    ∀ r ∈ ranges, offset ≤ r.start ∧ r.start < r.stop ∧ r.stop ≤ upto := by
  induction h with
  | nil => exact List.forall_mem_nil _
  | cons hle _ hlt _ _ h ih =>
      refine List.forall_mem_cons.mpr ⟨⟨hle, hlt, h.offset_le⟩, fun r hr => ?_⟩
      obtain ⟨hstart, hrange⟩ := ih r hr
      exact ⟨by omega, hrange⟩

theorem Covers.ordered (h : Covers cs upto operatorAllowed offset tokens ranges) :
    ranges.Pairwise fun r r' => r.stop ≤ r'.start := by
  induction h with
  | nil => exact .nil
  | cons _ _ _ _ _ h ih => exact .cons (fun r hr => (h.within r hr).1) ih

theorem Covers.length_eq (h : Covers cs upto operatorAllowed offset tokens ranges) :
    ranges.length = tokens.length := by
  induction h with
  | nil => rfl
  | cons _ _ _ _ _ _ ih => exact congrArg (· + 1) ih

/-- The token is what the lexer finds in the range behind tokens of given kinds. -/
structure ReadFrom (cs : List Char) (before : List TokenKind) (r : Range) (token : Token) : Prop
  where
  cuts : Cuts (allowsOperatorBehind false before) (r.of cs) (cs.drop r.stop) token.kind
  spelled : token.kind.SpelledBy (r.of cs)
  place : token.place = placeAt cs r.start

theorem Covers.readFrom {before : List TokenKind}
    (h : Covers cs upto (allowsOperatorBehind false before) offset tokens ranges) {i : Nat}
    {token : Token} {r : Range} (htoken : tokens[i]? = some token) (hr : ranges[i]? = some r) :
    ReadFrom cs (before ++ (tokens.take i).map (·.kind)) r token := by
  generalize hallowed : allowsOperatorBehind false before = operatorAllowed at h
  induction h generalizing before i with
  | nil => cases hr
  | @cons _ _ first _ _ _ _ _ _ hcuts hplace _ ih =>
      subst hallowed
      cases i with
      | zero =>
          cases htoken
          cases hr
          simp only [List.take_zero, List.map_nil, List.append_nil]
          exact ⟨hcuts, (cuts_iff_stands.mp hcuts).spelledBy, hplace⟩
      | succ i =>
          have hread := @ih (before ++ [first.kind]) i htoken hr (by simp [allowsOperatorBehind])
          simpa using hread

theorem Covers.isBlank (h : Covers cs upto operatorAllowed offset tokens ranges) {i : Nat}
    {c : Char} (hi : cs[i]? = some c) (hoffset : offset ≤ i) (hupto : i < upto)
    (hout : ∀ r ∈ ranges, i < r.start ∨ r.stop ≤ i) : isBlank c = true := by
  induction h with
  | nil _ hblank => exact hblank c (Range.mem_of_of_getElem? hi hoffset hupto)
  | cons _ hblank _ _ _ _ ih =>
      obtain ⟨hfirst, hmore⟩ := List.forall_mem_cons.mp hout
      rcases hfirst with hbefore | hbehind
      · exact hblank c (Range.mem_of_of_getElem? hi hoffset hbefore)
      · exact ih hbehind hmore

end

/-- The tokens are read from ranges of a text, one behind the other. What lies outside the ranges,
up to an offset, is blank. -/
structure Covered (cs : List Char) (upto : Nat) (tokens : List Token) (ranges : List Range) : Prop
  where
  length_eq : ranges.length = tokens.length
  start_lt : ∀ r ∈ ranges, r.start < r.stop
  ordered : ranges.Pairwise fun r r' => r.stop ≤ r'.start
  within : ∀ r ∈ ranges, r.stop ≤ upto
  read : ∀ i token r, tokens[i]? = some token → ranges[i]? = some r →
    ReadFrom cs ((tokens.take i).map (·.kind)) r token
  blank : ∀ i c, cs[i]? = some c → i < upto → (∀ r ∈ ranges, i < r.start ∨ r.stop ≤ i) →
    isBlank c = true

theorem Covers.covered {cs : List Char} {upto : Nat} {tokens : List Token} {ranges : List Range}
    (h : Covers cs upto false 0 tokens ranges) : Covered cs upto tokens ranges where
  length_eq := h.length_eq
  start_lt r hr := (h.within r hr).2.1
  ordered := h.ordered
  within r hr := (h.within r hr).2.2
  read _ _ _ htoken hr := @Covers.readFrom _ _ _ _ _ [] h _ _ _ htoken hr
  blank _ _ hi hupto hout := h.isBlank hi (Nat.zero_le _) hupto hout

theorem Covered.exists_range {cs : List Char} {upto : Nat} {tokens : List Token}
    {ranges : List Range} (h : Covered cs upto tokens ranges) {token : Token}
    (htoken : token ∈ tokens) : ∃ r ∈ ranges, token.place = placeAt cs r.start := by
  obtain ⟨i, hi, rfl⟩ := List.mem_iff_getElem.mp htoken
  have hrange : i < ranges.length := h.length_eq ▸ hi
  exact ⟨ranges[i], List.getElem_mem hrange,
    (h.read i _ _ (List.getElem?_eq_getElem hi) (List.getElem?_eq_getElem hrange)).place⟩

/-- No token starts inside another one. -/
theorem Covered.start_outside {cs : List Char} {upto : Nat} {tokens : List Token}
    {ranges : List Range} (h : Covered cs upto tokens ranges) {r s : Range} (hr : r ∈ ranges)
    (hs : s ∈ ranges) : s.start ≤ r.start ∨ r.stop ≤ s.start := by
  obtain ⟨i, hi, rfl⟩ := List.mem_iff_getElem.mp hr
  obtain ⟨j, hj, rfl⟩ := List.mem_iff_getElem.mp hs
  have hordered := List.pairwise_iff_getElem.mp h.ordered
  rcases Nat.lt_trichotomy i j with hlt | rfl | hgt
  · exact .inr (hordered i j hi hj hlt)
  · exact .inl (Nat.le_refl _)
  · exact .inl (Nat.le_trans (Nat.le_of_lt (h.start_lt _ hs)) (hordered j i hj hi hgt))

/-- All tokens of a text have their ranges, and reading ends behind them. -/
theorem exists_covers_ofText (text : String) :
    ∃ ranges upto, Covers text.toList upto false 0 (Tokens.ofText text).ahead ranges ∧
      StopsAt text.toList (allowsOperatorBehind false (Tokens.ofText text).kinds) upto
        (Tokens.ofText text).stop := by
  refine exists_covers_scan (Nat.zero_le _) (Nat.le_of_eq (Nat.zero_add _).symm) false ?_
  rw [placeAt_zero]
  rfl

end TreeQuery.Expr
