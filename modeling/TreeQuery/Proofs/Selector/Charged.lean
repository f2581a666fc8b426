import TreeQuery.Proofs.Outcome
import TreeQuery.Proofs.Selector.Cursor

/-!
What the cursor costs. Each function may start with some steps that no token has paid for, and
leaves a few more behind; whenever the cursor moves on, the token behind pays for all of them. The
end of the text pays for nothing, but no loop goes on there.
-/
namespace TreeQuery

open TreeQuery.Text (Place)

namespace Selector

/-! ## The lexer -/

/-- The end of the text is the last token, and nowhere else. -/
def Ended (tokens : List Token) : Prop :=
  ∃ front place, tokens = front ++ [⟨.eof, place⟩] ∧ ∀ token ∈ front, token.kind ≠ .eof

theorem ended_singleton (place : Place) : Ended [⟨.eof, place⟩] :=
  ⟨[], place, rfl, List.forall_mem_nil _⟩

theorem Ended.cons {token : Token} {tokens : List Token} (h : Ended tokens)
    (hkind : token.kind ≠ .eof) : Ended (token :: tokens) := by
  obtain ⟨front, place, rfl, hfront⟩ := h
  exact ⟨token :: front, place, rfl, List.forall_mem_cons.mpr ⟨hkind, hfront⟩⟩

/-- How a token goes on: by a character at least, and by two if another one is raw. -/
structure Proceeds (length : Nat) (read : TokenKind × Nat) : Prop where
  ne_eof : read.1 ≠ .eof
  width : 0 < read.2
  raw : takesRaw read.1 = true → 2 ≤ read.2 ∧ read.2 ≤ length

theorem proceeds_of_not_takesRaw {length : Nat} {kind : TokenKind} {width : Nat}
    (hkind : kind ≠ .eof ∧ takesRaw kind = false) (hwidth : 0 < width) :
    Proceeds length (kind, width) :=
  ⟨hkind.1, hwidth, fun hraw => absurd (hkind.2.symm.trans hraw) nofun⟩

/-- Behind the token there are fewer characters, also where one of them counts for a raw token. -/
theorem Proceeds.fewer {c : Char} {cs : List Char} {read : TokenKind × Nat}
    (h : Proceeds (c :: cs).length read) : read.1 ≠ .eof ∧
      ((c :: cs).drop read.2).length + 1 + (takesRaw read.1).toNat < (c :: cs).length + 1 + 0 ∧
      2 * ((c :: cs).drop read.2).length + (takesRaw read.1).toNat < 2 * (c :: cs).length + 0 := by
  obtain ⟨hne, hwidth, hraw⟩ := h
  have hpos : 0 < (c :: cs).length := Nat.succ_pos _
  rw [List.length_drop]
  generalize (c :: cs).length = length at *
  refine ⟨hne, ?_⟩
  cases htakes : takesRaw read.1 with
  | false =>
      rw [Bool.toNat_false]
      omega
  | true =>
      obtain ⟨htwo, hle⟩ := hraw htakes
      rw [Bool.toNat_true]
      omega

theorem proceeds_wordAt {c : Char} {cs : List Char} (h : isIdentChar c = true) :
    Proceeds (c :: cs).length (wordAt (c :: cs)) := by
  have hname : identAt (c :: cs) = c :: identAt cs := List.takeWhile_cons_of_pos h
  simp only [wordAt]
  split
  · rename_i hbehind
    have hlength := congrArg List.length hbehind
    rw [List.length_drop] at hlength
    simp only [hname, List.length_cons] at hlength ⊢
    exact ⟨nofun, by omega, fun _ => ⟨by omega, by omega⟩⟩
  · refine proceeds_of_not_takesRaw ⟨nofun, rfl⟩ ?_
    rw [hname]
    exact Nat.succ_pos _

theorem proceeds_lexeme {c : Char} {cs : List Char} {read : TokenKind × Nat}
    (h : lexeme c cs = .ok read) : Proceeds (c :: cs).length read := by
  have hsingles : ∀ entry ∈ singles, entry.2 ≠ .eof ∧ takesRaw entry.2 = false := by decide
  have hcomparisons : ∀ entry ∈ comparisons, (entry.2.1 ≠ .eof ∧ takesRaw entry.2.1 = false) ∧
      ∀ kind ∈ entry.2.2, kind ≠ .eof ∧ takesRaw kind = false := by decide
  rw [lexeme] at h
  split at h
  · rename_i hblank
    cases h
    refine proceeds_of_not_takesRaw ⟨nofun, rfl⟩ ?_
    rw [List.takeWhile_cons_of_pos hblank]
    exact Nat.succ_pos _
  split at h
  · rename_i hsingle
    cases h
    exact proceeds_of_not_takesRaw (hsingles _ (mem_of_lookup hsingle)) Nat.one_pos
  · rename_i hcomparison
    have hentry := hcomparisons _ (mem_of_lookup hcomparison)
    split at h
    · cases h
      exact proceeds_of_not_takesRaw hentry.1 Nat.two_pos
    · split at h
      · cases h
        exact proceeds_of_not_takesRaw (hentry.2 _ rfl) Nat.one_pos
      · cases h
  · split at h
    · rw [hashAt] at h
      split at h
      · cases h
      · cases h
        exact proceeds_of_not_takesRaw ⟨nofun, rfl⟩ (Nat.succ_pos _)
    split at h
    · rw [stringAt] at h
      split at h
      · cases h
        exact proceeds_of_not_takesRaw ⟨nofun, rfl⟩ (Nat.succ_pos _)
      · cases h
    split at h
    · rename_i hident
      exact Except.ok.inj h ▸ proceeds_wordAt hident
    · cases h

namespace Lexer

variable {s : Metered Lexer} {lexer lexer' : Lexer} {token : Token} {budget : Nat}

/-- The tokens that are to come at most: one for each character, the end, and a raw one. -/
def most (lexer : Lexer) : Nat := lexer.text.length + 1 + lexer.raw.toNat

theorem most_pos (lexer : Lexer) : 0 < lexer.most := Nat.add_pos_left (Nat.succ_pos _) _

/-- A token that is no end takes a character, or it is raw and none follows that is. -/
structure Steps (lexer : Lexer) (rounds : Nat) (token : Token) (lexer' : Lexer) : Prop where
  next_eq : lexer.next = .ok (token, lexer')
  ne_eof : token.kind ≠ .eof
  most_lt : lexer'.most < lexer.most
  fewer : 2 * lexer'.text.length + lexer'.raw.toNat < 2 * lexer.text.length + lexer.raw.toNat
  scan_eq : scan (rounds + 1) lexer.raw lexer.place lexer.text =
    (scan rounds lexer'.raw lexer'.place lexer'.text >>= fun rest => .ok (token :: rest))

/-- There is an error, or the end, or one more token. -/
theorem next_cases (lexer : Lexer) (rounds : Nat) :
    (∃ err, lexer.next = .error err ∧
        scan (rounds + 1) lexer.raw lexer.place lexer.text = .error err) ∨
      (lexer.text = [] ∧ lexer.raw = false) ∨
        ∃ token lexer', Steps lexer rounds token lexer' := by
  obtain ⟨text, place, raw⟩ := lexer
  cases raw with
  | true =>
      have hlength := List.length_drop (i := (rawAt text).2) (l := text)
      refine .inr (.inr ⟨⟨(rawAt text).1, place⟩, ⟨text.drop (rawAt text).2,
        place.after (text.take (rawAt text).2), false⟩, rfl, nofun, ?_, ?_, rfl⟩)
      · simp only [most, hlength, Bool.toNat_true, Bool.toNat_false]
        omega
      · simp only [hlength, Bool.toNat_true, Bool.toNat_false]
        omega
  | false =>
      cases text with
      | nil => exact .inr (.inl ⟨rfl, rfl⟩)
      | cons c cs =>
          cases hlexeme : lexeme c cs with
          | error fault =>
              exact .inl ⟨.parse fault place, by simp [next, hlexeme], by simp [scan, hlexeme]⟩
          | ok read =>
              obtain ⟨hkind, hmost, hfewer⟩ := (proceeds_lexeme hlexeme).fewer
              refine .inr (.inr ⟨⟨read.1, place⟩, ⟨(c :: cs).drop read.2,
                place.after ((c :: cs).take read.2), takesRaw read.1⟩, ?_, hkind, ?_, ?_, ?_⟩)
              · simp [next, hlexeme]
              · simpa only [most, Bool.toNat_false] using hmost
              · simpa only [Bool.toNat_false] using hfewer
              · rw [scan, hlexeme]

theorem outcome_tokens_of_error {err : QueryError} (h : s.state.next = .error err) :
    (tokens (budget + 1)).outcome s = some (.error err, { s with steps := s.steps + 1 }) := by
  rw [tokens, Run.outcome_tick, Run.outcome_state, h]
  rfl

theorem outcome_tokens_of_eof (h : s.state.next = .ok (token, lexer)) (hkind : token.kind = .eof) :
    (tokens (budget + 1)).outcome s =
      some (.ok [token], { s with state := lexer, steps := s.steps + 1 }) := by
  rw [tokens, Run.outcome_tick, Run.outcome_state, h]
  dsimp only
  rw [Run.outcome_setState, if_pos hkind]
  rfl

theorem outcome_tokens_of_ne (h : s.state.next = .ok (token, lexer)) (hkind : token.kind ≠ .eof) :
    (tokens (budget + 1)).outcome s = (tokens budget >>= fun rest => pure (token :: rest)).outcome
      { s with state := lexer, steps := s.steps + 1 } := by
  rw [tokens, Run.outcome_tick, Run.outcome_state, h]
  dsimp only
  rw [Run.outcome_setState, if_neg hkind]

/-- The tokens come to an end. There are so many and so many steps at most. -/
def Gives (most bound : Nat) (tokens : List Token) (s : Metered Lexer) (tokens' : List Token) :
    Prop :=
  tokens' = tokens ∧ Ended tokens ∧ tokens.length ≤ most ∧ s.steps ≤ bound

theorem halts_eof {bound : Nat} (htext : s.state.text = []) (hraw : s.state.raw = false)
    (hbound : s.steps + s.state.most ≤ bound) :
    Halts (Gives s.state.most bound) (fun s => s.steps ≤ bound) ((tokens (budget + 1)).outcome s)
      (.ok [⟨.eof, s.state.place⟩]) := by
  have hnext : s.state.next = .ok (⟨.eof, s.state.place⟩, s.state) := by
    simp [next, hraw, htext]
  rw [outcome_tokens_of_eof hnext rfl]
  rw [most, htext, hraw] at hbound ⊢
  exact .ok ⟨rfl, ended_singleton _, Nat.le_refl 1, hbound⟩

theorem halts_tokens {rounds bound : Nat}
    (hrounds : 2 * s.state.text.length + s.state.raw.toNat ≤ rounds)
    (hbudget : s.state.most ≤ budget) (hbound : s.steps + s.state.most ≤ bound) :
    Halts (Gives s.state.most bound) (fun s => s.steps ≤ bound) ((tokens budget).outcome s)
      (scan rounds s.state.raw s.state.place s.state.text) := by
  have hpos := s.state.most_pos
  induction rounds generalizing s budget with
  | zero =>
      obtain ⟨budget, rfl⟩ := Nat.exists_eq_add_one_of_ne_zero (n := budget) (by omega)
      have htext : s.state.text = [] := List.length_eq_zero_iff.mp (by omega)
      have hraw : s.state.raw = false := Bool.toNat_eq_zero.mp (by omega)
      rw [scan]
      exact halts_eof htext hraw hbound
  | succ rounds ih =>
      obtain ⟨budget, rfl⟩ := Nat.exists_eq_add_one_of_ne_zero (n := budget) (by omega)
      obtain ⟨err, hnext, hscan⟩ | ⟨htext, hraw⟩ | ⟨token, lexer, hsteps⟩ :=
        s.state.next_cases rounds
      · rw [outcome_tokens_of_error hnext, hscan]
        exact .error (Nat.le_trans (Nat.add_le_add_left hpos _) hbound)
      · have hscan : scan (rounds + 1) false s.state.place [] = .ok [⟨.eof, s.state.place⟩] := rfl
        rw [htext, hraw, hscan]
        exact halts_eof htext hraw hbound
      · have hmost := hsteps.most_lt
        have hfewer := hsteps.fewer
        have hrest := @ih { s with state := lexer, steps := s.steps + 1 } budget
          (Nat.le_of_lt_succ (Nat.lt_of_lt_of_le hfewer hrounds))
          (by dsimp only; omega) (by dsimp only; omega) lexer.most_pos
        rw [outcome_tokens_of_ne hsteps.next_eq hsteps.ne_eof, hsteps.scan_eq]
        refine hrest.bind fun tokens s tokens' hgives => ?_
        obtain ⟨rfl, hended, hlength, hbound⟩ := hgives
        exact .ok ⟨rfl, hended.cons hsteps.ne_eof, Nat.lt_of_le_of_lt hlength hmost, hbound⟩

theorem halts_run {text : String} (hbudget : text.toList.length + 1 ≤ budget) :
    Halts (Gives (text.toList.length + 1) (text.toList.length + 1))
      (fun s => s.steps ≤ text.toList.length + 1) (run budget text) (tokenize text) :=
  @halts_tokens { state := { text := text.toList } } _ _ _ (Nat.le_succ _) hbudget
    (Nat.le_of_eq (Nat.zero_add _))

end Lexer

theorem ended_tokenize {text : String} {tokens : List Token} (h : tokenize text = .ok tokens) :
    Ended tokens ∧ tokens.length ≤ text.toList.length + 1 := by
  have hrun := Lexer.halts_run (Nat.le_refl (text.toList.length + 1))
  rw [h] at hrun
  generalize Lexer.run _ text = run at hrun
  cases hrun with
  | ok hgives =>
      obtain ⟨rfl, hended, hlength, _⟩ := hgives
      exact ⟨hended, hlength⟩

/-! ## The cursor over tokens -/

/-- So many steps are paid by a token that is left behind. -/
def Cursor.rate : Nat := 12

open Cursor (rate)

/-- The cursor has the tokens of the input in front of it, and all steps but some are paid. -/
structure Follows (front : List Token) (budget credit n : Nat) (s : Metered Cursor)
    (input : Input) : Prop where
  tokens : s.state.tokens = front ++ [⟨.eof, input.finish⟩]
  offset : s.state.offset = s.passed
  ahead : input.ahead = front.drop s.passed
  paid : Paid rate front.length budget credit s.steps s.passed
  short : input.ahead.length ≤ n

/-- The state in which a reading fails. -/
structure Failed (front : List Token) (s : Metered Cursor) : Prop where
  offset : s.state.offset = s.passed
  within : s.passed ≤ front.length
  steps : s.steps ≤ rate * s.passed + rate

/-- The same is read, and all steps are paid. -/
def ReadsPaid {α : Type} (front : List Token) (budget n : Nat) (a : α) (s : Metered Cursor)
    (read : α × Input) : Prop :=
  read.1 = a ∧ ∃ k < n, Follows front budget 0 k s read.2

section
variable {α ρ : Type} {front : List Token} {b b' budget credit credit' n n' : Nat}
  {s : Metered Cursor} {input : Input} {good : α → Metered Cursor → ρ → Prop}
  {bad : Metered Cursor → Prop}
  {x : Except QueryError ρ} (h : Follows front b credit n s input)
include h

theorem Follows.mono (hcredit : credit ≤ credit') (hn : n ≤ n') :
    Follows front b credit' n' s input :=
  { h with
    paid := h.paid.mono hcredit
    short := Nat.le_trans h.short hn }

theorem Follows.widen (hb : b ≤ b') : Follows front b' credit n s input :=
  { h with paid := h.paid.widen hb }

theorem Follows.failed (hcredit : credit ≤ rate) : Failed front s where
  offset := h.offset
  within := h.paid.within
  steps := (h.paid.mono hcredit).steps

theorem Follows.tick : Follows front b (credit + 1) n { s with steps := s.steps + 1 } input :=
  { h with paid := h.paid.tick }

omit h in
/-- A step takes one from the budget. -/
theorem Follows.spend (h : Follows front (b + 1) credit n s input) :
    Follows front b (credit + 1) n { s with steps := s.steps + 1 } input :=
  { h with paid := h.paid.spend }

/-! ## Single tokens -/

/-- The cursor stands within the list, and the token there is the one in front. -/
theorem Follows.getElem?_eq : s.state.tokens[min s.state.offset (s.state.tokens.length - 1)]? =
    some ⟨input.current, input.place⟩ := by
  have hlast : s.state.tokens.length - 1 = front.length := by
    rw [h.tokens, List.length_append]
    rfl
  rw [hlast, h.offset, Nat.min_eq_left h.paid.within, h.tokens]
  unfold Input.current Input.place
  rw [h.ahead, List.head?_drop]
  rcases Nat.lt_or_eq_of_le h.paid.within with hlt | heq
  · rw [List.getElem?_append_left hlt, List.getElem?_eq_getElem hlt]
    rfl
  · rw [heq, List.getElem?_append_right (Nat.le_refl _), List.getElem?_eq_none (Nat.le_refl _)]
    simp

theorem Follows.token : Cursor.token.outcome s = some (.ok ⟨input.current, input.place⟩, s) := by
  rw [Cursor.token, Run.outcome_state, h.getElem?_eq]
  rfl

theorem Follows.current_eq_eof (hn : n ≤ 0) : input.current = .eof := by
  have hahead : input.ahead = [] :=
    List.length_eq_zero_iff.mp (Nat.le_zero.mp (Nat.le_trans h.short hn))
  rw [Input.current, hahead]
  rfl

theorem Follows.outcome_current (f : TokenKind → Run Cursor α) :
    (Cursor.current >>= f).outcome s = (f input.current).outcome s := by
  have hcurrent : Cursor.current.outcome s = some (.ok input.current, s) :=
    Run.outcome_bind_ok h.token
  rw [Run.outcome_bind_ok hcurrent]

theorem Follows.current {f : TokenKind → Run Cursor α}
    (hf : Halts good bad ((f input.current).outcome s) x) :
    Halts good bad ((Cursor.current >>= f).outcome s) x := by
  rwa [h.outcome_current]

theorem Follows.fail (hcredit : credit ≤ rate) (fault : Fault) :
    Halts good (Failed front) ((Cursor.fail fault).outcome s) (input.fail fault) := by
  rw [Cursor.fail, Run.outcome_bind_ok h.token, Run.outcome_throw]
  exact .error (h.failed hcredit)

theorem Follows.unexpected (hcredit : credit ≤ rate) :
    Halts good (Failed front) (Cursor.unexpected.outcome s) input.unexpected := by
  rw [Cursor.unexpected, Input.unexpected]
  exact h.current (h.fail hcredit _)

/-- The steps so far are paid by the token that is left behind. -/
theorem Follows.outcome_advance (hcredit : credit ≤ rate) (hcurrent : input.current ≠ .eof) :
    ∃ s', Cursor.advance.outcome s = some (.ok (), s') ∧
      ∃ k < n, Follows front b 0 k s' input.advance := by
  have hahead : input.ahead ≠ [] := fun hnil => hcurrent (by rw [Input.current, hnil]; rfl)
  have hlength := List.length_pos_iff.mpr hahead
  have hrest : input.ahead.length = front.length - s.passed := by rw [h.ahead, List.length_drop]
  have hmoves : s.state.offset + 1 < s.state.tokens.length := by
    rw [h.offset, h.tokens, List.length_append, List.length_singleton]
    omega
  have hshort := h.short
  rw [Cursor.advance, Run.outcome_state, if_pos hmoves]
  refine ⟨_, rfl, input.advance.ahead.length, ?_, h.tokens, congrArg (· + 1) h.offset, ?_,
    h.paid.pass hcredit ?_, Nat.le_refl _⟩
  · rw [Input.advance, List.length_tail]
    omega
  · rw [Input.advance, h.ahead, List.tail_drop]
  · omega

theorem Follows.advance (hcredit : credit ≤ rate) (hcurrent : input.current ≠ .eof)
    {f : Unit → Run Cursor α}
    (hf : ∀ s k, k < n → Follows front b 0 k s input.advance →
      Halts good bad ((f ()).outcome s) x) :
    Halts good bad ((Cursor.advance >>= f).outcome s) x := by
  obtain ⟨s', hadvance, k, hk, hs⟩ := h.outcome_advance hcredit hcurrent
  rw [Run.outcome_bind_ok hadvance]
  exact hf s' k hk hs

omit h in
theorem Input.skipBlanks_of_whitespace (hcurrent : input.current = .whitespace) :
    input.skipBlanks = input.advance.skipBlanks := by
  obtain ⟨ahead, finish⟩ := input
  cases ahead with
  | nil => cases hcurrent
  | cons token ahead =>
      have hblank : (token.kind == TokenKind.whitespace) = true := beq_iff_eq.mpr hcurrent
      simp [Input.skipBlanks, Input.advance, hblank]

omit h in
theorem Input.skipBlanks_of_ne (hcurrent : input.current ≠ .whitespace) :
    input.skipBlanks = input := by
  obtain ⟨ahead, finish⟩ := input
  cases ahead with
  | nil => rfl
  | cons token ahead =>
      have hblank : ¬(token.kind == TokenKind.whitespace) = true := mt beq_iff_eq.mp hcurrent
      simp [Input.skipBlanks, hblank]

/-- Blanks are left behind, and the first of them pays for all steps so far. -/
theorem Follows.outcome_skipBlanks (hb : b ≤ budget) (hcredit : credit < rate) :
    ∃ s', (Cursor.skipBlanks budget).outcome s = some (.ok (), s') ∧
      Follows front b (credit + 1) n s' input.skipBlanks ∧
        (input.current = .whitespace → ∃ k < n, Follows front b 1 k s' input.skipBlanks) := by
  induction budget generalizing b credit n s input with
  | zero => exact absurd (Nat.le_zero.mp hb) (Nat.ne_of_gt (h.paid.budget_pos hcredit))
  | succ budget ih =>
      obtain ⟨b, rfl⟩ := Nat.exists_eq_add_one_of_ne_zero (Nat.ne_of_gt (h.paid.budget_pos hcredit))
      have htick := h.spend
      rw [Cursor.skipBlanks, Run.outcome_tick, htick.outcome_current]
      by_cases hblank : input.current = .whitespace
      · rw [if_pos hblank]
        obtain ⟨s', hadvance, k, hk, hs⟩ := htick.outcome_advance hcredit (by simp [hblank])
        obtain ⟨s'', hskip, hs', _⟩ := ih hs (Nat.le_of_succ_le_succ hb) (by decide)
        have hs'' := hs'.widen (Nat.le_succ b)
        rw [Run.outcome_bind_ok hadvance, Input.skipBlanks_of_whitespace hblank]
        exact ⟨s'', hskip, hs''.mono (Nat.le_add_left 1 credit) (Nat.le_of_lt hk),
          fun _ => ⟨k, hk, hs''⟩⟩
      · rw [if_neg hblank, Input.skipBlanks_of_ne hblank]
        exact ⟨_, rfl, h.tick, fun h => absurd h hblank⟩

theorem Follows.skipBlanks (hb : b ≤ budget) (hcredit : credit < rate) {f : Unit → Run Cursor α}
    (hf : ∀ s, Follows front b (credit + 1) n s input.skipBlanks →
      (input.current = .whitespace → ∃ k < n, Follows front b 1 k s input.skipBlanks) →
      Halts good bad ((f ()).outcome s) x) :
    Halts good bad ((Cursor.skipBlanks budget >>= f).outcome s) x := by
  obtain ⟨s', hskip, hs, hblank⟩ := h.outcome_skipBlanks hb hcredit
  rw [Run.outcome_bind_ok hskip]
  exact hf s' hs hblank

theorem Follows.expect (hcredit : credit ≤ rate) {kind : TokenKind} (hkind : kind ≠ .eof)
    (what : String) :
    Halts (fun _ s input => ∃ k < n, Follows front b 0 k s input) (Failed front)
      ((Cursor.expect kind what).outcome s) (input.expect kind what) := by
  rw [Cursor.expect, Input.expect]
  refine h.current ?_
  split
  · rename_i hcurrent
    obtain ⟨s', hadvance, hs⟩ := h.outcome_advance hcredit (hcurrent ▸ hkind)
    rw [hadvance]
    exact .ok hs
  · exact h.fail hcredit _

/-- The token that is expected is left behind, and something is read. -/
theorem Follows.expect_pure (hcredit : credit ≤ rate) {kind : TokenKind} (hkind : kind ≠ .eof)
    (what : String) (a : α) :
    Halts (ReadsPaid front b n) (Failed front)
      ((Cursor.expect kind what >>= fun _ => pure a).outcome s)
      (input.expect kind what >>= fun input => .ok (a, input)) := by
  refine (h.expect hcredit hkind what).bind fun _ s input hs => ?_
  exact .ok ⟨rfl, hs⟩

end

instance {front : List Token} : Account (Follows front) (fun input => input.ahead.length) rate where
  mono := Follows.mono
  widen := Follows.widen
  tick h := h.spend
  pos h := h.paid.budget_pos
  short := Follows.short
  tight h := { h with short := Nat.le_refl _ }

/-- The cursor reads what the parser reads. -/
abbrev Cursor.Tracks {α : Type} (front : List Token) (budget before after n : Nat)
    (m : Run Cursor α) (parser : Parser α) : Prop :=
  TreeQuery.Tracks (Follows front) (Failed front) budget before after n m parser

variable {front : List Token} {budget b n : Nat}

/-! ## Names and attributes -/

section
variable {α ρ : Type} {good : α → Metered Cursor → ρ → Prop} {x : Except QueryError ρ}
  {credit : Nat} {s : Metered Cursor} {input : Input}

theorem Follows.outcome_namePart? (h : Follows front b credit n s input) (hcredit : credit < rate) :
    ∃ s', Cursor.namePart?.outcome s = some (.ok (namePart? input).1, s') ∧
      Follows front b (credit + 1) n s' (namePart? input).2 := by
  rw [Cursor.namePart?, Selector.namePart?.eq_def, Run.outcome_tick, h.tick.outcome_current]
  cases hcurrent : input.current with
  | star | ident =>
      obtain ⟨s', hadvance, k, hk, hs⟩ := h.tick.outcome_advance hcredit (by simp [hcurrent])
      dsimp only
      rw [Run.outcome_bind_ok hadvance]
      exact ⟨s', rfl, hs.mono (Nat.zero_le _) (Nat.le_of_lt hk)⟩
  | _ => exact ⟨_, rfl, h.tick⟩

theorem Follows.namePart? (h : Follows front b credit n s input) (hcredit : credit < rate)
    {f : Option NamePart → Run Cursor α}
    (hf : ∀ s, Follows front b (credit + 1) n s (namePart? input).2 →
      Halts good (Failed front) ((f (namePart? input).1).outcome s) x) :
    Halts good (Failed front) ((Cursor.namePart? >>= f).outcome s) x := by
  obtain ⟨s', hname, hs⟩ := h.outcome_namePart? hcredit
  rw [Run.outcome_bind_ok hname]
  exact hf s' hs

end

theorem tracks_typeSelector :
    Cursor.Tracks front budget 4 6 n Cursor.typeSelector typeSelector := by
  intro b hb s input hs
  rw [Cursor.typeSelector, typeSelector, Run.outcome_tick]
  refine hs.tick.namePart? (by decide) fun s hs => ?_
  generalize namePart? input = read at hs ⊢
  obtain ⟨name?, input⟩ := read
  cases name? with
  | none => exact .ok ⟨rfl, hs⟩
  | some first =>
      refine hs.current ?_
      dsimp only
      split
      · rename_i hpipe
        refine hs.advance (by decide) (by simp [hpipe]) fun s k hk hs => ?_
        refine hs.namePart? (by decide) fun s hs => ?_
        generalize Selector.namePart? _ = read at hs ⊢
        obtain ⟨name?, input⟩ := read
        cases name? with
        | some name => exact .ok ⟨rfl, hs.mono (by decide) (Nat.le_of_lt hk)⟩
        | none => exact hs.fail (by decide) _
      · exact .ok ⟨rfl, hs⟩

theorem tracks_attrName : Cursor.Tracks front budget 1 3 n Cursor.attrName attrName := by
  intro b hb s input hs
  rw [Cursor.attrName, attrName, Run.outcome_tick]
  refine hs.tick.namePart? (by decide) fun s hs => ?_
  generalize namePart? input = read at hs ⊢
  obtain ⟨first, input⟩ := read
  refine hs.current ?_
  dsimp only
  split
  · rename_i hpipe
    refine hs.advance (by decide) (by simp [hpipe]) fun s k hk hs => ?_
    refine hs.current ?_
    cases first with
    | none => exact hs.fail (by decide) _
    | some pfx =>
        cases hname : input.advance.current with
        | ident name =>
            refine hs.advance (by decide) (by simp [hname]) fun s j hj hs => ?_
            exact .ok ⟨rfl, hs.mono (by decide) (by omega)⟩
        | _ => exact hs.fail (by decide) _
  · cases first with
    | none => exact hs.fail (by decide) _
    | some first =>
        cases first with
        | any => exact hs.fail (by decide) _
        | name name => exact .ok ⟨rfl, hs⟩

theorem tracks_attrComparison :
    Cursor.Tracks front budget 4 5 n (Cursor.attrComparison budget) attrComparison := by
  intro b hb s input hs
  rw [Cursor.attrComparison, attrComparison, Run.outcome_tick]
  refine hs.tick.current ?_
  cases hop : attrOp? input.current with
  | none => exact .ok ⟨rfl, hs.tick⟩
  | some op =>
      have hcurrent : input.current ≠ .eof := by
        intro heof
        rw [heof] at hop
        cases hop
      refine hs.tick.advance (by decide) hcurrent fun s k hk hs => ?_
      refine hs.skipBlanks hb (by decide) fun s hs _ => ?_
      refine hs.current ?_
      dsimp only
      cases hvalue : input.advance.skipBlanks.current with
      | string | ident =>
          refine hs.advance (by decide) (by simp [hvalue]) fun s j hj hs => ?_
          refine hs.skipBlanks hb (by decide) fun s hs _ => ?_
          exact .ok ⟨rfl, hs.mono (by decide) (by omega)⟩
      | _ => exact hs.fail (by decide) _

section
variable {α : Type} {s : Metered Cursor} {input : Input}

theorem ReadsPaid.mono {k : Nat} {a : α} {read : α × Input} (h : ReadsPaid front b k a s read)
    (hk : k ≤ n) : ReadsPaid front b n a s read := by
  obtain ⟨hvalue, j, hj, hs⟩ := h
  exact ⟨hvalue, j, Nat.lt_of_lt_of_le hj hk, hs⟩

theorem Follows.attrSelector (h : Follows front b 8 n s input) (hb : b ≤ budget)
    (hcurrent : input.current = .leftBracket) :
    Halts (ReadsPaid front b n) (Failed front) ((Cursor.attrSelector budget).outcome s)
      (attrSelector input) := by
  rw [Cursor.attrSelector, Selector.attrSelector, Run.outcome_tick]
  refine h.tick.advance (by decide) (by simp [hcurrent]) fun s k hk hs => ?_
  refine hs.skipBlanks hb (by decide) fun s hs _ => ?_
  refine tracks_attrName.bind hs hb (Nat.le_refl _) fun name s input hs => ?_
  refine hs.skipBlanks hb (by decide) fun s hs _ => ?_
  refine tracks_attrComparison.bind hs hb (Nat.le_refl _) fun comparison s input hs => ?_
  refine (hs.expect_pure (by decide) (by decide) _ _).mono fun _ _ _ hread => ?_
  exact hread.mono (Nat.le_of_lt hk)

theorem Follows.className (h : Follows front b 8 n s input) (hcurrent : input.current = .dot) :
    Halts (ReadsPaid front b n) (Failed front) (Cursor.className.outcome s) (className input) := by
  rw [Cursor.className, Selector.className, Run.outcome_tick]
  refine h.tick.advance (by decide) (by simp [hcurrent]) fun s k hk hs => ?_
  refine hs.current ?_
  cases hname : input.advance.current with
  | ident name =>
      refine hs.advance (by decide) (by simp [hname]) fun s j hj hs => ?_
      exact .ok ⟨rfl, j, Nat.lt_trans hj hk, hs⟩
  | _ => exact hs.fail (by decide) _

end

theorem tracks_nthArgument : Cursor.Tracks front budget 1 2 n Cursor.nthArgument nthArgument := by
  intro b hb s input hs
  rw [Cursor.nthArgument, nthArgument.eq_def, Run.outcome_tick]
  refine hs.tick.current ?_
  cases hcurrent : input.current with
  | raw text =>
      dsimp only
      cases Nth.parse? text with
      | some series =>
          refine hs.tick.advance (by decide) (by simp [hcurrent]) fun s k hk hs => ?_
          exact .ok ⟨rfl, hs.mono (by decide) (Nat.le_of_lt hk)⟩
      | none => exact hs.tick.fail (by decide) _
  | _ => exact hs.tick.unexpected (by decide)

/-! ## Compounds over inner ones -/

section
variable {inner : Run Cursor Compound} {parser : Parser Compound}
  (h : ∀ k < n, Cursor.Tracks front budget 3 8 k inner parser) {s : Metered Cursor} {input : Input}
include h

theorem Follows.pseudoFunction {k : Nat} (hs : Follows front b 0 k s input) (hb : b ≤ budget)
    (hk : k < n) (name : String) :
    Halts (ReadsPaid front b n) (Failed front)
      ((Cursor.pseudoFunction inner budget name).outcome s) (pseudoFunction parser name input) := by
  rw [Cursor.pseudoFunction, Selector.pseudoFunction, Run.outcome_tick]
  split
  · refine tracks_nthArgument.bind hs.tick hb (Nat.le_refl _) fun series s input hs => ?_
    dsimp only
    cases nthClasses.lookup name with
    | some kind =>
        refine (hs.expect_pure (by decide) (by decide) _ _).mono fun _ _ _ hread => ?_
        exact hread.mono (Nat.le_of_lt hk)
    | none => exact .error (hs.failed (by decide))
  · split
    · refine hs.tick.skipBlanks hb (by decide) fun s hs _ => ?_
      refine (h k hk).bind hs hb (by decide) fun compound s input hs => ?_
      refine hs.skipBlanks hb (by decide) fun s hs _ => ?_
      refine (hs.expect_pure (by decide) (by decide) _ _).mono fun _ _ _ hread => ?_
      exact hread.mono (Nat.le_of_lt hk)
    · exact .error (hs.tick.failed (by decide))

theorem Follows.pseudoClass (hs : Follows front b 8 n s input) (hb : b ≤ budget)
    (hcurrent : input.current = .colon) :
    Halts (ReadsPaid front b n) (Failed front) ((Cursor.pseudoClass inner budget).outcome s)
      (pseudoClass parser input) := by
  rw [Cursor.pseudoClass, Selector.pseudoClass, Run.outcome_tick]
  refine hs.tick.advance (by decide) (by simp [hcurrent]) fun s k hk hs => ?_
  refine hs.current ?_
  cases hname : input.advance.current with
  | ident name =>
      dsimp only
      cases plainClasses.lookup name with
      | some condition =>
          refine hs.advance (by decide) (by simp [hname]) fun s j hj hs => ?_
          exact .ok ⟨rfl, j, Nat.lt_trans hj hk, hs⟩
      | none => exact .error (hs.failed (by decide))
  | function name =>
      refine hs.advance (by decide) (by simp [hname]) fun s j hj hs => ?_
      exact hs.pseudoFunction h hb (Nat.lt_trans hj hk) name
  | colon => exact .error (hs.failed (by decide))
  | _ => exact hs.fail (by decide) _

/-- A filter that is read has paid for all steps. -/
theorem Follows.filter? (hs : Follows front b 7 n s input) (hb : b ≤ budget) :
    Halts (fun f? s read => ReadsWith (Follows front b) 8 n f? s read ∧
        ∀ f, f? = some f → ReadsPaid front b n f? s read) (Failed front)
      ((Cursor.filter? inner budget).outcome s) (filter? parser input) := by
  rw [Cursor.filter?, Selector.filter?.eq_def, Run.outcome_tick]
  have hpaid {α : Type} {a : α} {s : Metered Cursor} {read : α × Input}
      (hread : ReadsPaid front b n a s read) (f : α → Option Filter) :
      ReadsWith (Follows front b) 8 n (f a) s (f read.1, read.2) ∧
        ∀ f', f a = some f' → ReadsPaid front b n (f a) s (f read.1, read.2) := by
    obtain ⟨rfl, k, hk, hs⟩ := hread
    exact ⟨⟨rfl, hs.mono (by decide) (Nat.le_of_lt hk)⟩, fun _ _ => ⟨rfl, k, hk, hs⟩⟩
  refine hs.tick.current ?_
  cases hcurrent : input.current with
  | dot =>
      refine (hs.tick.className hcurrent).bind fun f s read hread => ?_
      exact .ok (hpaid hread some)
  | hash name =>
      refine hs.tick.advance (by decide) (by simp [hcurrent]) fun s k hk hs => ?_
      exact .ok (@hpaid _ () s ((), input.advance) ⟨rfl, k, hk, hs⟩ fun _ => some (.id name))
  | leftBracket =>
      refine (hs.tick.attrSelector hb hcurrent).bind fun selector s read hread => ?_
      exact .ok (hpaid hread fun selector => some (.attr selector))
  | colon =>
      refine (hs.tick.pseudoClass h hb hcurrent).bind fun f s read hread => ?_
      exact .ok (hpaid hread some)
  | _ => exact .ok ⟨⟨rfl, hs.tick⟩, nofun⟩

theorem tracks_filtersFrom {budget' rounds : Nat} (hbudget : budget' ≤ budget)
    (hrounds : n ≤ rounds) :
    Cursor.Tracks front budget' 6 8 n (Cursor.filters inner budget')
      (filtersFrom parser rounds) := by
  induction rounds generalizing n budget' with
  | zero =>
      refine Tracks.call (Cursor.filters inner) (fun _ => rfl) (by decide)
        fun budget' _ b hb s input hs => ?_
      -- without a round left there is no token, and a cursor at the end reads no filter
      have hcurrent := hs.current_eq_eof hrounds
      have hnone : (Cursor.filter? inner budget').outcome s =
          some (.ok none, { s with steps := s.steps + 1 }) := by
        rw [Cursor.filter?, Run.outcome_tick, hs.tick.outcome_current, hcurrent]
        rfl
      rw [Run.outcome_bind_ok hnone]
      exact .ok ⟨rfl, hs.tick⟩
  | succ rounds ih =>
      refine Tracks.call (Cursor.filters inner) (fun _ => rfl) (by decide)
        fun budget' hlt b hb s input hs => ?_
      have hinner := fun k (hk : k < n) => (h k hk).of_le (Nat.le_trans (Nat.le_of_lt hlt) hbudget)
      rw [filtersFrom]
      refine (hs.filter? hinner hb).bind fun f? s read hread => ?_
      obtain ⟨f?, input⟩ := read
      obtain ⟨⟨rfl, hs⟩, hpaid⟩ := hread
      cases f? with
      | none => exact .ok ⟨rfl, hs⟩
      | some f =>
          obtain ⟨_, k, hk, hs⟩ := hpaid f rfl
          refine (ih (fun j hj => h j (Nat.lt_trans hj hk)) (by omega) (by omega)).bind hs hb
            (Nat.zero_le _) fun fs s input hs => ?_
          exact .ok ⟨rfl, hs.mono (Nat.le_refl _) (Nat.le_of_lt hk)⟩

theorem tracks_compoundWith :
    Cursor.Tracks front budget 4 8 n (Cursor.compoundWith inner budget) (compoundWith parser) := by
  intro b hb s input hs
  rw [Cursor.compoundWith, compoundWith]
  refine tracks_typeSelector.bind hs hb (Nat.le_refl _) fun element s input hs => ?_
  have hfilters : Cursor.Tracks front budget 6 8 n (Cursor.filters inner budget) fun input =>
      filtersFrom parser input.ahead.length input := tracks_rounds (filtersFrom parser) fun k hk =>
    tracks_filtersFrom (fun j hj => h j (Nat.lt_of_lt_of_le hj hk)) (Nat.le_refl _) (Nat.le_refl k)
  refine hfilters.bind hs hb (Nat.le_refl _) fun filters s input hs => ?_
  dsimp only
  split
  · exact hs.fail (by decide) _
  · exact .ok ⟨rfl, hs⟩

end

theorem tracks_compoundNested {depth : Nat} (hn : n < depth) :
    Cursor.Tracks front budget 3 8 n (Cursor.compound budget) (compoundNested depth) := by
  induction depth generalizing budget n with
  | zero => exact absurd hn (Nat.not_lt_zero n)
  | succ depth ih =>
      exact Tracks.call Cursor.compound (fun _ => rfl) (by decide) fun budget _ =>
        tracks_compoundWith fun k hk => ih (by omega)

theorem tracks_compound : Cursor.Tracks front budget 3 8 n (Cursor.compound budget) compound :=
  tracks_rounds (fun k => compoundNested (k + 1)) fun k _ =>
    tracks_compoundNested (Nat.lt_succ_self k)

/-! ## Chains and lists -/

/-- A combinator that is read has paid for all steps but those over the blanks. -/
theorem Follows.combinator? {s : Metered Cursor} {input : Input} (hs : Follows front b 9 n s input)
    (hb : b ≤ budget) :
    Halts (fun combinator? s read => ReadsWith (Follows front b) 11 n combinator? s read ∧
        ∀ combinator, combinator? = some combinator → ∃ k < n, Follows front b 2 k s read.2)
      (Failed front) ((Cursor.combinator? budget).outcome s) (combinator? input) := by
  rw [Cursor.combinator?, Selector.combinator?.eq_def, Run.outcome_tick]
  refine hs.tick.current ?_
  refine hs.tick.skipBlanks hb (by decide) fun s hs hblank => ?_
  refine hs.current ?_
  dsimp only
  cases hcurrent : input.skipBlanks.current with
  | greater =>
      refine hs.advance (by decide) (by simp [hcurrent]) fun s k hk hs => ?_
      refine hs.skipBlanks hb (by decide) fun s hs _ => ?_
      exact .ok ⟨⟨rfl, hs.mono (by decide) (Nat.le_of_lt hk)⟩,
        fun _ _ => ⟨k, hk, hs.mono (by decide) (Nat.le_refl _)⟩⟩
  | plus | tilde => exact .error (hs.failed (by decide))
  | comma | eof => exact .ok ⟨⟨rfl, hs⟩, nofun⟩
  | _ =>
      dsimp only
      split
      · rename_i hspaced
        obtain ⟨k, hk, hs⟩ := hblank hspaced
        refine hs.skipBlanks hb (by decide) fun s hs _ => ?_
        exact .ok ⟨⟨rfl, hs.mono (by decide) (Nat.le_of_lt hk)⟩, fun _ _ => ⟨k, hk, hs⟩⟩
      · exact hs.unexpected (by decide)

theorem tracks_tailFrom {rounds : Nat} (hn : n < rounds) :
    Cursor.Tracks front budget 8 11 n (Cursor.tail budget) (tailFrom rounds) := by
  induction rounds generalizing budget n with
  | zero => exact absurd hn (Nat.not_lt_zero n)
  | succ rounds ih =>
      refine Tracks.call Cursor.tail (fun _ => rfl) (by decide) fun budget _ b hb s input hs => ?_
      rw [tailFrom]
      refine (hs.combinator? hb).bind fun combinator? s read hread => ?_
      obtain ⟨combinator?, input⟩ := read
      obtain ⟨⟨rfl, hs⟩, hpaid⟩ := hread
      cases combinator? with
      | none => exact .ok ⟨rfl, hs⟩
      | some combinator =>
          obtain ⟨k, hk, hs⟩ := hpaid combinator rfl
          refine tracks_compound.bind hs hb (by decide) fun c s input hs => ?_
          refine (ih (by omega)).bind hs hb (Nat.le_refl _) fun tail s input hs => ?_
          exact .ok ⟨rfl, hs.mono (Nat.le_refl _) (Nat.le_of_lt hk)⟩

theorem Follows.outcome_skipGreater {s : Metered Cursor} {input : Input}
    (h : Follows front b 3 n s input) (hb : b ≤ budget) :
    ∃ s', (Cursor.skipGreater budget).outcome s = some (.ok (), s') ∧ Follows front b 3 n s'
      (if input.current = .greater then input.advance.skipBlanks else input) := by
  rw [Cursor.skipGreater, h.outcome_current]
  split
  · rename_i hcurrent
    obtain ⟨s', hadvance, k, hk, hs⟩ := h.outcome_advance (by decide) (by simp [hcurrent])
    obtain ⟨s'', hskip, hs', _⟩ := hs.outcome_skipBlanks hb (by decide)
    rw [Run.outcome_bind_ok hadvance]
    exact ⟨s'', hskip, hs'.mono (by decide) (Nat.le_of_lt hk)⟩
  · exact ⟨s, rfl, h⟩

theorem tracks_complex : Cursor.Tracks front budget 2 11 n (Cursor.complex budget) complex := by
  intro b hb s input hs
  obtain ⟨s', hgreater, hs'⟩ := hs.tick.outcome_skipGreater hb
  rw [Cursor.complex, complex, Run.outcome_tick, Run.outcome_bind_ok hgreater]
  refine tracks_compound.bind hs' hb (Nat.le_refl _) fun head s input hs => ?_
  have htail : Cursor.Tracks front budget 8 11 n (Cursor.tail budget) fun input =>
      tailFrom (input.ahead.length + 1) input :=
    tracks_rounds (fun k => tailFrom (k + 1)) fun k _ =>
      tracks_tailFrom (Nat.lt_succ_self k)
  refine htail.bind hs hb (Nat.le_refl _) fun tail s input hs => ?_
  exact .ok ⟨rfl, hs⟩

theorem halts_listFrom {rounds : Nat} (hn : n < rounds) {s : Metered Cursor} {input : Input}
    (hs : Follows front b 0 n s input) (hb : b ≤ budget) :
    Halts (fun selectors s selectors' => selectors' = selectors ∧ Failed front s) (Failed front)
      ((Cursor.list budget).outcome s) (listFrom rounds input) := by
  induction rounds generalizing b budget n s input with
  | zero => exact absurd hn (Nat.not_lt_zero n)
  | succ rounds ih =>
      have hpos := hs.paid.budget_pos (by decide)
      obtain ⟨b, rfl⟩ := Nat.exists_eq_add_one_of_ne_zero (n := b) (by omega)
      obtain ⟨budget, rfl⟩ := Nat.exists_eq_add_one_of_ne_zero (n := budget) (by omega)
      have hb := Nat.le_of_succ_le_succ hb
      rw [Cursor.list, listFrom, Run.outcome_tick]
      refine hs.spend.skipBlanks hb (by decide) fun s hs _ => ?_
      refine tracks_complex.bind hs hb (Nat.le_refl _) fun selector s input hs => ?_
      refine hs.skipBlanks hb (by decide) fun s hs _ => ?_
      refine hs.current ?_
      dsimp only
      cases hcurrent : input.skipBlanks.current with
      | comma =>
          refine hs.advance (by decide) (by simp [hcurrent]) fun s k hk hs => ?_
          refine (ih (by omega) hs hb).bind fun selectors s selectors' hread => ?_
          obtain ⟨rfl, hs⟩ := hread
          exact .ok ⟨rfl, hs⟩
      | eof => exact .ok ⟨rfl, hs.failed (by decide)⟩
      | _ => exact hs.unexpected (by decide)

/-! ## Whole texts -/

theorem Input.ofText_of_tokenize {text : String} {front : List Token} {place : Place}
    (h : tokenize text = .ok (front ++ [⟨.eof, place⟩]))
    (hfront : ∀ token ∈ front, token.kind ≠ .eof) :
    ofText text = .ok ⟨front, place⟩ := by
  have hkept : front.filter (fun token => token.kind != .eof) = front :=
    List.filter_eq_self.mpr fun token htoken => bne_iff_ne.mpr (hfront token htoken)
  rw [ofText, h]
  change Except.ok (Input.mk _ _) = _
  rw [List.filter_append, hkept, List.getLast?_concat]
  simp

theorem Cursor.halts_run {text : String} {front : List Token} {place : Place}
    (h : tokenize text = .ok (front ++ [⟨.eof, place⟩]))
    (hfront : ∀ token ∈ front, token.kind ≠ .eof) (hbudget : rate * (front.length + 1) ≤ budget) :
    Halts (fun selectors s selectors' => selectors' = selectors ∧ Failed front s) (Failed front)
      (Cursor.run budget (front ++ [⟨.eof, place⟩])) (parse text) := by
  rw [parse, Input.ofText_of_tokenize h hfront]
  exact halts_listFrom (Nat.lt_succ_self _)
    ⟨rfl, rfl, rfl, ⟨hbudget, Nat.zero_le _, Nat.zero_le _⟩, Nat.le_refl _⟩ (Nat.le_refl _)

end Selector

end TreeQuery
