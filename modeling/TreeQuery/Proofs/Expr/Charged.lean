import Mathlib.Data.Nat.Basic
import Mathlib.Order.Basic
import TreeQuery.Proofs.Expr.Ranges
import TreeQuery.Proofs.Expr.Reader

/-!
What the reader costs. A way down through the levels of operators moves over no token, so each level
starts with one more step that is not paid, and a token pays for all of them when it is left behind.
The numbers of the levels say how deep they are.
-/
namespace TreeQuery

open TreeQuery.Text

namespace Expr

/-! ## The lexer -/

namespace Tokens

/-- The tokens behind the one in front. -/
def behind (ts : Tokens) : Tokens := { ts with ahead := ts.ahead.tail }

theorem toList_of_checked_error {ts : Tokens} {err : QueryError} (h : ts.checked = .error err) :
    ts.toList = .error err := by
  obtain ⟨ahead, stop⟩ := ts
  cases ahead with
  | cons => cases h
  | nil =>
      cases stop with
      | error =>
          cases h
          rfl
      | ok => cases h

/-- There is no token that is left, or there is one in front of the others. -/
theorem toList_of_checked {ts : Tokens} (h : ts.checked = .ok ts) :
    (ts.current? = none ∧ ts.toList = .ok []) ∨
      ∃ kind, ts.current? = some kind ∧ ts.behind.ahead.length < ts.ahead.length ∧
        ts.toList = (ts.behind.toList >>= fun rest => .ok (⟨kind, ts.place⟩ :: rest)) := by
  obtain ⟨ahead, stop⟩ := ts
  cases ahead with
  | nil =>
      cases stop with
      | error => cases h
      | ok => exact .inl ⟨rfl, rfl⟩
  | cons token ahead =>
      refine .inr ⟨token.kind, rfl, Nat.lt_succ_self _, ?_⟩
      cases stop with
      | error => rfl
      | ok => rfl

/-- Rounds enough are enough. -/
theorem scan_rounds {cs : List Char} {rounds rounds' : Nat} (hrounds : cs.length ≤ rounds)
    (hrounds' : cs.length ≤ rounds') (operatorAllowed : Bool) (place : Place) :
    scan rounds operatorAllowed place cs = scan rounds' operatorAllowed place cs := by
  induction rounds generalizing rounds' cs operatorAllowed place with
  | zero =>
      obtain rfl : cs = [] := List.length_eq_zero_iff.mp (Nat.le_zero.mp hrounds)
      rw [scan_nil, scan_nil]
  | succ rounds ih =>
      have hsplit : cs = cs.takeWhile isBlank ++ cs.dropWhile isBlank :=
        List.takeWhile_append_dropWhile.symm
      have hblanks : ∀ c ∈ cs.takeWhile isBlank, isBlank c = true :=
        List.all_eq_true.mp List.all_takeWhile
      have hstops := stops_dropWhile isBlank cs
      have hlength := congrArg List.length hsplit
      rw [List.length_append] at hlength
      rw [hsplit, scan_blanks hblanks, scan_blanks hblanks]
      generalize cs.dropWhile isBlank = here at *
      obtain rfl | ⟨c, more, fault, rfl, hblank, hfault⟩ | ⟨text, rest, kind, rfl, hcuts⟩ :=
        cuts_cases hstops operatorAllowed
      · rw [scan_nil, scan_nil]
      · obtain ⟨k, rfl⟩ := Nat.exists_eq_add_one_of_ne_zero (n := rounds') (by
          simp only [List.length_cons] at hlength; omega)
        rw [scan_of_fault hblank hfault, scan_of_fault hblank hfault]
      · have hpos := hcuts.length_pos
        rw [List.length_append] at hlength
        obtain ⟨k, rfl⟩ := Nat.exists_eq_add_one_of_ne_zero (n := rounds') (by omega)
        rw [scan_of_cuts hcuts, scan_of_cuts hcuts, @ih _ k (by omega) (by omega)]

end Tokens

/-- The tokens that the lexer goes on to read. -/
def Lexer.rest (lexer : Lexer) : Tokens :=
  .scan lexer.text.length lexer.operatorAllowed lexer.place lexer.text

theorem Lexer.next_cases (lexer : Lexer) :
    (∃ err, lexer.next = .error err ∧ lexer.rest.checked = .error err) ∨
      ∃ lexer', lexer.next = .ok ((lexer.rest.current?, lexer.rest.place), lexer') ∧
        lexer.rest.checked = .ok lexer.rest ∧ lexer'.rest = lexer.rest.behind := by
  obtain ⟨text, place, operatorAllowed⟩ := lexer
  unfold rest next
  rw [Tokens.scan.eq_def]
  dsimp only
  cases hhere : text.drop (text.takeWhile isBlank).length with
  | nil =>
      refine .inr ⟨_, rfl, rfl, ?_⟩
      dsimp only
      rw [Tokens.scan_nil]
      rfl
  | cons c cs =>
      have hlength := congrArg List.length hhere
      simp only [List.length_drop, List.length_cons] at hlength
      obtain ⟨rounds, hrounds⟩ := Nat.exists_eq_add_one_of_ne_zero (n := text.length) (by omega)
      rw [hrounds]
      dsimp only
      cases hlexeme : lexeme operatorAllowed c cs with
      | error fault => exact .inl ⟨_, rfl, rfl⟩
      | ok read =>
          obtain ⟨word, rest, hcs, hwidth, hstands⟩ := stands_of_lexeme hlexeme
          have hpos := hstands.cuts.length_pos
          refine .inr ⟨_, rfl, rfl, ?_⟩
          dsimp only
          have hle : ((c :: cs).drop read.2).length ≤ rounds := by
            simp only [List.length_drop, List.length_cons]
            omega
          rw [Tokens.scan_rounds (Nat.le_refl _) hle]
          rfl

/-- All tokens are read, with a step for each and one for the end. -/
theorem Lexer.halts_tokens {budget bound : Nat} {s : Metered Lexer}
    (hbudget : s.state.rest.ahead.length < budget)
    (hbound : s.steps + s.state.rest.ahead.length + 1 ≤ bound) :
    Halts (fun tokens s tokens' => tokens' = tokens ∧ s.steps ≤ bound) (fun s => s.steps ≤ bound)
      ((tokens budget).outcome s) s.state.rest.toList := by
  induction budget generalizing s with
  | zero => exact absurd hbudget (Nat.not_lt_zero _)
  | succ budget ih =>
      rw [tokens, Run.outcome_tick, Run.outcome_state]
      obtain ⟨err, hnext, hchecked⟩ | ⟨lexer, hnext, hchecked, hlexer⟩ := s.state.next_cases
      · rw [hnext, Tokens.toList_of_checked_error hchecked]
        exact .error (by dsimp only; omega)
      · rw [hnext]
        obtain ⟨hcurrent, hlist⟩ | ⟨kind, hcurrent, hlt, hlist⟩ := Tokens.toList_of_checked hchecked
        · rw [hcurrent, hlist]
          exact .ok ⟨rfl, by dsimp only; omega⟩
        · rw [hcurrent, hlist, ← hlexer]
          dsimp only
          rw [Run.outcome_setState]
          rw [← hlexer] at hlt
          refine (@ih { s with state := lexer, steps := s.steps + 1 } (by dsimp only; omega)
            (by dsimp only; omega)).bind fun tokens s tokens' hread => ?_
          obtain ⟨rfl, hsteps⟩ := hread
          exact .ok ⟨rfl, hsteps⟩

theorem Lexer.halts_run {text : String} {budget : Nat}
    (hbudget : (Tokens.ofText text).ahead.length < budget) :
    Halts (fun tokens s tokens' =>
        tokens' = tokens ∧ s.steps ≤ (Tokens.ofText text).ahead.length + 1)
      (fun s => s.steps ≤ (Tokens.ofText text).ahead.length + 1) (Lexer.run budget text)
      (Tokens.ofText text).toList :=
  Lexer.halts_tokens hbudget (Nat.le_of_eq (congrArg (· + 1) (Nat.zero_add _)))

/-! ## The reader over tokens -/

/-- So many steps are paid by a token that is left behind. -/
def Reader.rate : Nat := 25

/-- What the reader has behind the current token: all that the lexer goes on to read, or one token
that it looks at and the rest. -/
inductive Reader.Behind (s : Metered Reader) (ts : Tokens) : Prop where
  | hidden (peeked : s.state.peeked = none) (lexer : s.state.lexer.rest = ts.behind)
      (drawn : s.state.drawn = s.passed + 1)
  | peeked (peeked : s.state.peeked = some (ts.behind.current?, ts.behind.place))
      (checked : ts.behind.checked = .ok ts.behind) (lexer : s.state.lexer.rest = ts.behind.behind)
      (drawn : s.state.drawn = s.passed + 2)

open Reader (rate)

/-- The reader has the token in front as the current one, and all steps but some are paid. -/
structure Follows (limit budget credit n : Nat) (s : Metered Reader) (ts : Tokens) : Prop where
  current : s.state.current = (ts.current?, ts.place)
  behind : Reader.Behind s ts
  beyond : s.state.beyond ≤ 1
  paid : Paid rate limit budget credit s.steps s.passed
  passed : s.passed + ts.ahead.length ≤ limit
  short : ts.ahead.length ≤ n

/-- The state in which a reading fails. -/
structure Failed (limit : Nat) (s : Metered Reader) : Prop where
  drawn : s.state.drawn ≤ s.passed + 2
  beyond : s.state.beyond ≤ 1
  steps : s.steps ≤ rate * s.passed + rate
  passed : s.passed ≤ limit

/-- A token is left behind, and it pays for all steps so far. -/
def Passes (limit budget n : Nat) (_ : Unit) (s : Metered Reader) (ts : Tokens) : Prop :=
  ∃ k < n, Follows limit budget 0 k s ts

section
variable {α ρ : Type} {limit b credit credit' n n' : Nat} {s : Metered Reader} {ts : Tokens}
  {good : α → Metered Reader → ρ → Prop} {bad : Metered Reader → Prop}

theorem Reader.Behind.drawn_le (h : Reader.Behind s ts) : s.state.drawn ≤ s.passed + 2 := by
  cases h with
  | hidden _ _ hdrawn => exact Nat.le_of_lt (Nat.lt_succ_of_le (Nat.le_of_eq hdrawn))
  | peeked _ _ _ hdrawn => exact Nat.le_of_eq hdrawn

theorem Reader.Behind.tick (h : Reader.Behind s ts) :
    Reader.Behind { s with steps := s.steps + 1 } ts := by
  cases h with
  | hidden hpeeked hlexer hdrawn => exact .hidden hpeeked hlexer hdrawn
  | peeked hpeeked hchecked hlexer hdrawn => exact .peeked hpeeked hchecked hlexer hdrawn

theorem Reader.outcome_setCurrent (front : Front) (f : Unit → Run Reader α) :
    (Reader.setCurrent front >>= f).outcome s =
      (f ()).outcome { s with state.current := front, state.peeked := none } := rfl

theorem ahead_length_of_current? {kind : TokenKind} (h : ts.current? = some kind) :
    ts.behind.ahead.length + 1 = ts.ahead.length := by
  obtain ⟨ahead, stop⟩ := ts
  cases ahead with
  | nil => cases h
  | cons => rfl

variable (h : Follows limit b credit n s ts)
include h

theorem Follows.mono (hcredit : credit ≤ credit') (hn : n ≤ n') : Follows limit b credit' n' s ts :=
  { h with
    paid := h.paid.mono hcredit
    short := Nat.le_trans h.short hn }

theorem Follows.failed (hcredit : credit ≤ rate) : Failed limit s where
  drawn := h.behind.drawn_le
  beyond := h.beyond
  steps := (h.paid.mono hcredit).steps
  passed := h.paid.within

theorem Follows.current?_eq_none (hn : n ≤ 0) : ts.current? = none := by
  have hahead : ts.ahead = [] :=
    List.length_eq_zero_iff.mp (Nat.le_zero.mp (Nat.le_trans h.short hn))
  rw [Tokens.current?, hahead]
  rfl

theorem Follows.tick : Follows limit b (credit + 1) n { s with steps := s.steps + 1 } ts :=
  { h with
    behind := h.behind.tick
    paid := h.paid.tick }

/-! ## Single tokens -/

theorem Follows.current? {f : Option TokenKind → Run Reader α} {x : Except QueryError ρ}
    (hf : Halts good bad ((f ts.current?).outcome s) x) :
    Halts good bad ((Reader.current? >>= f).outcome s) x := by
  have hcurrent : s.state.current.1 = ts.current? := congrArg Prod.fst h.current
  have houtcome : (Reader.current? >>= f).outcome s = (f s.state.current.1).outcome s := rfl
  rwa [houtcome, hcurrent]

theorem Follows.fail (hcredit : credit ≤ rate) (fault : Fault) :
    Halts good (Failed limit) ((Reader.fail fault).outcome s) (ts.fail fault) := by
  have hplace : s.state.current.2 = ts.place := congrArg Prod.snd h.current
  rw [Reader.fail, Run.outcome_state, Run.outcome_throw, hplace]
  exact .error (h.failed hcredit)

theorem Follows.unexpected (hcredit : credit ≤ rate) :
    Halts good (Failed limit) (Reader.unexpected.outcome s) ts.unexpected := by
  rw [Reader.unexpected, Tokens.unexpected]
  exact h.current? (h.fail hcredit _)

/-- The token behind the current one is drawn when it is needed, and once. -/
theorem Follows.next (hcredit : credit ≤ rate) :
    Halts (fun front s u => front = (u.current?, u.place) ∧ u = ts.behind ∧
        Follows limit b credit n { s with state.peeked := some front } ts) (Failed limit)
      (Reader.next.outcome s) ts.advance := by
  have hadvance : ts.advance = ts.behind.checked := rfl
  rw [Reader.next, Run.outcome_state, hadvance]
  cases h.behind with
  | peeked hpeeked hchecked hlexer hdrawn =>
      rw [hpeeked, hchecked]
      exact .ok ⟨rfl, rfl, { h with behind := .peeked rfl hchecked hlexer hdrawn }⟩
  | hidden hpeeked hlexer hdrawn =>
      rw [hpeeked]
      dsimp only
      rw [Reader.draw, Run.outcome_get, ← hlexer]
      obtain ⟨err, hnext, hchecked⟩ | ⟨lexer, hnext, hchecked, hrest⟩ := s.state.lexer.next_cases
      · rw [hnext, hchecked]
        exact .error (h.failed hcredit)
      · rw [hnext, hchecked]
        rw [hlexer] at hchecked hrest
        refine .ok ⟨rfl, rfl, { h with behind := ?_, beyond := ?_ }⟩
        · exact .peeked (by rw [hlexer]) hchecked hrest (congrArg (· + 1) hdrawn)
        · have hbeyond := h.beyond
          dsimp only
          omega

/-- The steps so far are paid by the token that is left behind. -/
theorem Follows.advance {kind : TokenKind} (hcredit : credit ≤ rate)
    (hkind : ts.current? = some kind) :
    Halts (Passes limit b n) (Failed limit) (Reader.advance.outcome s) ts.advance := by
  have hlength := ahead_length_of_current? hkind
  rw [Reader.advance, ← bind_pure ts.advance]
  refine (h.next hcredit).bind fun front s u hnext => ?_
  obtain ⟨rfl, rfl, hs⟩ := hnext
  obtain ⟨_, hbehind, hbeyond, hpaid, hpassed, hshort⟩ := hs
  cases hbehind with
  | hidden hpeeked => cases hpeeked
  | peeked _ _ hlexer hdrawn =>
      refine .ok ⟨ts.behind.ahead.length, by omega,
        ⟨rfl, .hidden rfl hlexer hdrawn, hbeyond, hpaid.pass hcredit (by omega), ?_,
          Nat.le_refl _⟩⟩
      dsimp only at hpassed ⊢
      omega

theorem Follows.expect (hcredit : credit ≤ rate) (kind : TokenKind) (what : String) :
    Halts (Passes limit b n) (Failed limit) ((Reader.expect kind what).outcome s)
      (ts.expect kind what) := by
  rw [Reader.expect, Tokens.expect]
  refine h.current? ?_
  split
  · rename_i hkind
    exact h.advance hcredit hkind
  · exact h.fail hcredit _

theorem Follows.peek (hcredit : credit ≤ rate) :
    Halts (fun kind s kind' => kind' = kind ∧ Follows limit b credit n s ts) (Failed limit)
      (Reader.peek.outcome s) ts.peek := by
  have hpeek : ts.peek = ts.advance >>= fun ts => .ok ts.current? := by
    rw [Tokens.peek]
    cases ts.advance <;> rfl
  rw [Reader.peek, hpeek]
  refine (h.next hcredit).bind fun front s u hnext => ?_
  obtain ⟨rfl, rfl, hs⟩ := hnext
  exact .ok ⟨rfl, hs⟩

end

end Expr

/-! ## Readers and parsers side by side -/

section
open TreeQuery.Expr (Tokens Reader Follows Passes Failed)

variable {α β ρ : Type} {limit b credit j k n : Nat} {s : Metered Reader}
  {good : β → Metered Reader → ρ → Prop} {m : Run Reader Unit} {x : Except QueryError Tokens}
  (h : Halts (Passes limit b k) (Failed limit) (m.outcome s) x)
include h

theorem Halts.passes {f : Unit → Run Reader β} {g : Tokens → Except QueryError ρ}
    (hf : ∀ j s ts, j < k → Follows limit b 0 j s ts →
      Halts good (Failed limit) ((f ()).outcome s) (g ts)) :
    Halts good (Failed limit) ((m >>= f).outcome s) (x >>= g) := by
  refine h.bind fun _ s ts hpasses => ?_
  obtain ⟨j, hj, hs⟩ := hpasses
  exact hf j s ts hj hs

theorem Halts.passes_pure (hn : k ≤ n) (a : α) :
    Halts (ReadsWith (Follows limit b) credit n) (Failed limit) ((m >>= fun _ => pure a).outcome s)
      (x >>= fun ts => .ok (a, ts)) :=
  h.passes fun _ _ _ hj hs => .ok ⟨rfl, hs.mono (Nat.zero_le _) (Nat.le_trans (Nat.le_of_lt hj) hn)⟩

end

namespace Expr

open Reader (rate)

instance {limit : Nat} : Account (Follows limit) (fun ts => ts.ahead.length) rate where
  mono := Follows.mono
  widen h hbudget := { h with paid := h.paid.widen hbudget }
  short := Follows.short
  tight h := { h with short := Nat.le_refl _ }
  tick h := { h with behind := h.behind.tick, paid := h.paid.spend }
  pos h := h.paid.budget_pos

/-- The reader reads what the parser reads. -/
abbrev Reader.Tracks {α : Type} (limit budget before after n : Nat) (m : Run Reader α)
    (parser : Parser α) : Prop :=
  TreeQuery.Tracks (Follows limit) (Failed limit) budget before after n m parser

variable {limit budget n : Nat}

/-! ## Steps without predicates -/

theorem tracks_typeTarget (text : String) :
    Reader.Tracks limit budget 0 1 n (Reader.typeTarget text) (typeTarget text) := by
  intro b hb s ts hs
  rw [Reader.typeTarget, typeTarget, Run.outcome_tick]
  refine (hs.tick.expect (by decide) _ _).passes fun k s ts hk hs => ?_
  refine hs.current? ?_
  cases hfront : ts.current? with
  | none => exact (hs.expect (by decide) _ _).passes_pure (Nat.le_of_lt hk) _
  | some kind =>
      cases kind with
      | string target =>
          dsimp only
          split
          · refine (hs.advance (by decide) hfront).passes fun k' s ts hk' hs => ?_
            exact (hs.expect (by decide) _ _).passes_pure (by omega) _
          · exact (hs.expect (by decide) _ _).passes_pure (Nat.le_of_lt hk) _
      | _ => exact (hs.expect (by decide) _ _).passes_pure (Nat.le_of_lt hk) _

theorem tracks_nodeTest : Reader.Tracks limit budget 14 15 n Reader.nodeTest nodeTest := by
  intro b hb s ts hs
  rw [Reader.nodeTest, nodeTest.eq_def, Run.outcome_tick]
  refine hs.tick.current? ?_
  cases hfront : ts.current? with
  | none => exact hs.tick.fail (by decide) _
  | some kind =>
      cases kind with
      | star | name | nameTest =>
          exact (hs.tick.advance (by decide) hfront).passes_pure (Nat.le_refl _) _
      | nodeType text =>
          refine (hs.tick.advance (by decide) hfront).passes fun k s ts hk hs => ?_
          refine (tracks_typeTarget _).bind hs hb (Nat.le_refl _) fun target s ts hs => ?_
          exact .ok ⟨rfl, hs.mono (by decide) (Nat.le_of_lt hk)⟩
      | _ => exact hs.tick.fail (by decide) _

theorem tracks_stepAxis : Reader.Tracks limit budget 13 14 n Reader.stepAxis stepAxis := by
  intro b hb s ts hs
  rw [Reader.stepAxis, stepAxis.eq_def, Run.outcome_tick]
  refine hs.tick.current? ?_
  cases hfront : ts.current? with
  | none => exact .ok ⟨rfl, hs.tick⟩
  | some kind =>
      cases kind with
      | atSign => exact (hs.tick.advance (by decide) hfront).passes_pure (Nat.le_refl _) _
      | axis text =>
          dsimp only
          cases Axis.ofName? text with
          | none => exact .error (hs.tick.failed (by decide))
          | some axis =>
              refine (hs.tick.advance (by decide) hfront).passes fun k s ts hk hs => ?_
              exact (hs.expect (by decide) _ _).passes_pure (Nat.le_of_lt hk) _
      | _ => exact .ok ⟨rfl, hs.tick⟩

theorem Follows.atStep {b credit : Nat} {s : Metered Reader} {ts : Tokens}
    (hs : Follows limit b credit n s ts) (hcredit : credit < rate) :
    Halts (fun here s here' => here' = here ∧ Follows limit b (credit + 1) n s ts) (Failed limit)
      (Reader.atStep.outcome s) (atStep ts) := by
  rw [Reader.atStep, Expr.atStep.eq_def, Run.outcome_tick]
  refine hs.tick.current? ?_
  cases ts.current? with
  | none => exact .ok ⟨rfl, hs.tick⟩
  | some kind =>
      cases kind with
      | name | nameTest =>
          refine (hs.tick.peek hcredit).bind fun kind s kind' hpeek => ?_
          obtain ⟨rfl, hs⟩ := hpeek
          exact .ok ⟨rfl, hs⟩
      | _ => exact .ok ⟨rfl, hs.tick⟩

/-! ## Levels of operators -/

section
variable {join? : TokenKind → Option (Expr → Expr → Expr)} {operand : Run Reader Expr}
  {parser : Parser Expr} {before after : Nat}

theorem tracks_chainFrom {budget' rounds : Nat} (hafter : after < rate)
    (h : ∀ k < n, Reader.Tracks limit budget before after k operand parser)
    (hbudget : budget' ≤ budget) (hrounds : n ≤ rounds) (left : Expr) :
    Reader.Tracks limit budget' after (after + 1) n (Reader.operators join? operand budget' left)
      (chainFrom parser join? rounds left) := by
  induction rounds generalizing n budget' left with
  | zero =>
      refine Tracks.call (Reader.operators join? operand · left) (fun _ => rfl) hafter
        fun budget' _ b hb s ts hs => ?_
      refine hs.current? ?_
      rw [hs.current?_eq_none hrounds]
      exact .ok ⟨rfl, hs⟩
  | succ rounds ih =>
      refine Tracks.call (Reader.operators join? operand · left) (fun _ => rfl) hafter
        fun budget' _ b hb s ts hs => ?_
      rw [chainFrom]
      refine hs.current? ?_
      cases hjoin : ts.current?.bind join? with
      | none => exact .ok ⟨rfl, hs⟩
      | some join =>
          obtain ⟨kind, hkind, _⟩ := Option.bind_eq_some_iff.mp hjoin
          -- the operator pays for all steps so far, and there are fewer tokens for the rounds to come
          refine (hs.advance hafter hkind).passes fun k s ts hk hs => ?_
          refine (h k hk).bind hs (by omega) (Nat.zero_le _) fun right s ts hs => ?_
          exact (ih (fun j hj => h j (hj.trans hk)) (by omega) (by omega) (join left right)).halts
            hs hb (Nat.le_refl _) (Nat.le_refl _) (Nat.le_of_lt hk)

theorem tracks_operation (hafter : after < rate)
    (h : ∀ k ≤ n, Reader.Tracks limit budget (before + 1) after k operand parser) :
    Reader.Tracks limit budget before (after + 1) n (Reader.operation join? operand budget)
      (chain join? parser) := by
  intro b hb s ts hs
  rw [Reader.operation, Run.outcome_tick]
  refine (h n (Nat.le_refl n)).bind hs.tick hb (Nat.le_refl _) fun left s ts hs => ?_
  have hrest : Reader.Tracks limit budget after (after + 1) n
      (Reader.operators join? operand budget left) fun ts =>
        chainFrom parser join? ts.ahead.length left ts :=
    tracks_rounds (fun rounds => chainFrom parser join? rounds left) fun k hk =>
      tracks_chainFrom hafter (fun j hj => h j (hj.le.trans hk)) (Nat.le_refl _) (Nat.le_refl k)
        left
  exact hrest b hb s ts hs

theorem tracks_negationFrom {budget' rounds : Nat} (hbefore : before < rate)
    (h : ∀ k ≤ n, Reader.Tracks limit budget (before + 1) after k operand parser)
    (hbudget : budget' ≤ budget) (hrounds : n ≤ rounds) :
    Reader.Tracks limit budget' before after n (Reader.negation operand budget')
      (negationFrom parser rounds) := by
  induction rounds generalizing n budget' with
  | zero =>
      refine Tracks.call (Reader.negation operand) (fun _ => rfl) hbefore
        fun budget' _ b hb s ts hs => ?_
      refine hs.current? ?_
      rw [hs.current?_eq_none hrounds]
      exact h n (Nat.le_refl n) b (by omega) s ts hs
  | succ rounds ih =>
      refine Tracks.call (Reader.negation operand) (fun _ => rfl) hbefore
        fun budget' _ b hb s ts hs => ?_
      rw [negationFrom]
      refine hs.current? ?_
      split
      · rename_i hkind
        refine (hs.advance hbefore hkind).passes fun k s ts hk hs => ?_
        refine (ih (fun j hj => h j (hj.trans hk.le)) (by omega) (by omega)).bind hs hb
          (Nat.zero_le _) fun e s ts hs => ?_
        exact .ok ⟨rfl, hs.mono (Nat.le_refl _) (Nat.le_of_lt hk)⟩
      · exact h n (Nat.le_refl n) b (by omega) s ts hs

theorem tracks_negation (hbefore : before < rate)
    (h : ∀ k ≤ n, Reader.Tracks limit budget (before + 1) after k operand parser) :
    Reader.Tracks limit budget before after n (Reader.negation operand budget) (negation parser) :=
  tracks_rounds (negationFrom parser) fun k hk =>
    tracks_negationFrom hbefore (fun j hj => h j (hj.trans hk)) (Nat.le_refl _) (Nat.le_refl k)

end

/-! ## Expressions over those between brackets -/

section
variable {nested : Run Reader Expr} {parser : Parser Expr}
  (h : ∀ k < n, Reader.Tracks limit budget 0 24 k nested parser)
include h

theorem Follows.predicate {b : Nat} {s : Metered Reader} {ts : Tokens}
    (hs : Follows limit b 16 n s ts) (hb : b ≤ budget) (hkind : ts.current? = some .leftBracket) :
    Halts (fun e s read => read.1 = e ∧ ∃ k < n, Follows limit b 0 k s read.2) (Failed limit)
      ((Reader.predicate nested).outcome s) (predicate parser ts) := by
  rw [Reader.predicate, Expr.predicate, Run.outcome_tick]
  refine (hs.tick.advance (by decide) hkind).passes fun k s ts hk hs => ?_
  refine (h k hk).bind hs hb (Nat.le_refl _) fun e s ts hs => ?_
  refine (hs.expect (by decide) _ _).passes fun j s ts hj hs => ?_
  exact .ok ⟨rfl, j, hj.trans hk, hs⟩

theorem tracks_predicatesFrom {budget' rounds : Nat} (hbudget : budget' ≤ budget)
    (hrounds : n ≤ rounds) :
    Reader.Tracks limit budget' 15 16 n (Reader.predicates nested budget')
      (predicatesFrom parser rounds) := by
  induction rounds generalizing n budget' with
  | zero =>
      refine Tracks.call (Reader.predicates nested) (fun _ => rfl) (by decide)
        fun budget' _ b hb s ts hs => ?_
      refine hs.current? ?_
      rw [hs.current?_eq_none hrounds]
      exact .ok ⟨rfl, hs⟩
  | succ rounds ih =>
      refine Tracks.call (Reader.predicates nested) (fun _ => rfl) (by decide)
        fun budget' _ b hb s ts hs => ?_
      rw [predicatesFrom]
      refine hs.current? ?_
      split
      · rename_i hkind
        refine (hs.predicate h (by omega) hkind).bind fun e s read hread => ?_
        obtain ⟨_, ts⟩ := read
        obtain ⟨rfl, k, hk, hs⟩ := hread
        refine (ih (fun j hj => h j (hj.trans hk)) (by omega) (by omega)).bind hs hb
          (Nat.zero_le _) fun es s ts hs => ?_
        exact .ok ⟨rfl, hs.mono (Nat.le_refl _) (Nat.le_of_lt hk)⟩
      · exact .ok ⟨rfl, hs⟩

theorem tracks_predicates :
    Reader.Tracks limit budget 15 16 n (Reader.predicates nested budget) (predicates parser) :=
  tracks_rounds (predicatesFrom parser) fun k hk =>
    tracks_predicatesFrom (fun j hj => h j (hj.trans_le hk)) (Nat.le_refl _) (Nat.le_refl k)

theorem tracks_argumentsFrom {budget' rounds : Nat} (hbudget : budget' ≤ budget)
    (hrounds : n ≤ rounds) :
    Reader.Tracks limit budget' 24 25 n (Reader.moreArguments nested budget')
      (argumentsFrom parser rounds) := by
  induction rounds generalizing n budget' with
  | zero =>
      refine Tracks.call (Reader.moreArguments nested) (fun _ => rfl) (by decide)
        fun budget' _ b hb s ts hs => ?_
      refine hs.current? ?_
      rw [hs.current?_eq_none hrounds]
      exact .ok ⟨rfl, hs⟩
  | succ rounds ih =>
      refine Tracks.call (Reader.moreArguments nested) (fun _ => rfl) (by decide)
        fun budget' _ b hb s ts hs => ?_
      rw [argumentsFrom]
      refine hs.current? ?_
      split
      · rename_i hkind
        refine (hs.advance (by decide) hkind).passes fun k s ts hk hs => ?_
        refine (h k hk).bind hs (by omega) (Nat.le_refl _) fun e s ts hs => ?_
        refine (ih (fun j hj => h j (hj.trans hk)) (by omega) (by omega)).bind hs hb
          (Nat.le_refl _) fun es s ts hs => ?_
        exact .ok ⟨rfl, hs.mono (Nat.le_refl _) (Nat.le_of_lt hk)⟩
      · exact .ok ⟨rfl, hs⟩

theorem tracks_arguments (hn : Reader.Tracks limit budget 0 24 n nested parser) :
    Reader.Tracks limit budget 0 25 n (Reader.arguments nested budget) (arguments parser) := by
  intro b hb s ts hs
  rw [Reader.arguments, arguments]
  refine hs.current? ?_
  split
  · exact .ok ⟨rfl, hs.mono (by decide) (Nat.le_refl _)⟩
  · refine hn.bind hs hb (Nat.le_refl _) fun e s ts hs => ?_
    have hmore : Reader.Tracks limit budget 24 25 n (Reader.moreArguments nested budget) fun ts =>
        argumentsFrom parser ts.ahead.length ts := tracks_rounds (argumentsFrom parser) fun k hk =>
      tracks_argumentsFrom (fun j hj => h j (hj.trans_le hk)) (Nat.le_refl _) (Nat.le_refl k)
    refine hmore.bind hs hb (Nat.le_refl _) fun es s ts hs => ?_
    exact .ok ⟨rfl, hs⟩

theorem Follows.functionCall {b : Nat} {kind : TokenKind} {s : Metered Reader} {ts : Tokens}
    (hs : Follows limit b 14 n s ts) (hb : b ≤ budget) (hkind : ts.current? = some kind)
    (function : String) :
    Halts (ReadsWith (Follows limit b) 14 n) (Failed limit)
      ((Reader.functionCall nested budget function).outcome s)
      (functionCall parser function ts) := by
  rw [Reader.functionCall, Expr.functionCall, Run.outcome_tick]
  refine (hs.tick.advance (by decide) hkind).passes fun k s ts hk hs => ?_
  refine (hs.expect (by decide) _ _).passes fun j s ts hj hs => ?_
  have harguments := tracks_arguments (fun i hi => h i (by omega)) (h j (hj.trans hk))
  refine harguments.bind hs hb (Nat.le_refl _) fun args s ts hs => ?_
  exact (hs.expect (by decide) _ _).passes_pure (by omega) _

theorem tracks_primary :
    Reader.Tracks limit budget 13 14 n (Reader.primary nested budget) (primary parser) := by
  intro b hb s ts hs
  rw [Reader.primary, primary.eq_def, Run.outcome_tick]
  refine hs.tick.current? ?_
  cases hfront : ts.current? with
  | none => exact hs.tick.unexpected (by decide)
  | some kind =>
      cases kind with
      | number | string | reference =>
          exact (hs.tick.advance (by decide) hfront).passes_pure (Nat.le_refl _) _
      | leftParen =>
          refine (hs.tick.advance (by decide) hfront).passes fun k s ts hk hs => ?_
          refine (h k hk).bind hs hb (Nat.le_refl _) fun e s ts hs => ?_
          exact (hs.expect (by decide) _ _).passes_pure (Nat.le_of_lt hk) _
      | name | nameTest => exact hs.tick.functionCall h hb hfront _
      | _ => exact hs.tick.unexpected (by decide)

theorem tracks_filterParser :
    Reader.Tracks limit budget 12 16 n (Reader.filterParser nested budget)
      (filterParser parser) := by
  intro b hb s ts hs
  rw [Reader.filterParser, filterParser, Run.outcome_tick]
  refine (tracks_primary h).bind hs.tick hb (Nat.le_refl _) fun e s ts hs => ?_
  refine (tracks_predicates h).bind hs hb (by decide) fun es s ts hs => ?_
  exact .ok ⟨rfl, hs⟩

theorem tracks_stepParser :
    Reader.Tracks limit budget 12 16 n (Reader.stepParser nested budget) (stepParser parser) := by
  intro b hb s ts hs
  rw [Reader.stepParser, stepParser.eq_def, Run.outcome_tick]
  refine hs.tick.current? ?_
  cases hfront : ts.current?
  case' some kind => cases kind
  case some.dot | some.doubleDot =>
    exact (hs.tick.advance (by decide) hfront).passes_pure (Nat.le_refl _) _
  all_goals
    refine tracks_stepAxis.bind hs.tick hb (Nat.le_refl _) fun axis s ts hs => ?_
    refine tracks_nodeTest.bind hs hb (Nat.le_refl _) fun test s ts hs => ?_
    refine (tracks_predicates h).bind hs hb (Nat.le_refl _) fun es s ts hs => ?_
    exact .ok ⟨rfl, hs⟩

theorem tracks_stepsFrom {budget' rounds : Nat} (hbudget : budget' ≤ budget)
    (hrounds : n ≤ rounds) :
    Reader.Tracks limit budget' 16 17 n (Reader.moreSteps nested budget')
      (stepsFrom parser rounds) := by
  induction rounds generalizing n budget' with
  | zero =>
      refine Tracks.call (Reader.moreSteps nested) (fun _ => rfl) (by decide)
        fun budget' _ b hb s ts hs => ?_
      refine hs.current? ?_
      rw [hs.current?_eq_none hrounds]
      exact .ok ⟨rfl, hs⟩
  | succ rounds ih =>
      refine Tracks.call (Reader.moreSteps nested) (fun _ => rfl) (by decide)
        fun budget' hlt b hb s ts hs => ?_
      rw [stepsFrom]
      refine hs.current? ?_
      cases hfront : ts.current? with
      | none => exact .ok ⟨rfl, hs⟩
      | some kind =>
          cases kind with
          | slash | doubleSlash =>
              refine (hs.advance (by decide) hfront).passes fun k s ts hk hs => ?_
              have hk' := fun j (hj : j < k) => h j (hj.trans hk)
              have hstep := tracks_stepParser fun j hj => (hk' j hj).of_le (hlt.le.trans hbudget)
              refine hstep.bind hs hb (Nat.zero_le _) fun e s ts hs => ?_
              refine (ih hk' (by omega) (by omega)).bind hs hb (Nat.le_refl _)
                fun es s ts hs => ?_
              exact .ok ⟨rfl, hs.mono (Nat.le_refl _) (Nat.le_of_lt hk)⟩
          | _ => exact .ok ⟨rfl, hs⟩

theorem tracks_steps :
    Reader.Tracks limit budget 11 17 n (Reader.steps nested budget) (steps parser) := by
  intro b hb s ts hs
  rw [Reader.steps, steps, Run.outcome_tick]
  refine (tracks_stepParser h).bind hs.tick hb (Nat.le_refl _) fun e s ts hs => ?_
  have hmore : Reader.Tracks limit budget 16 17 n (Reader.moreSteps nested budget) fun ts =>
      stepsFrom parser ts.ahead.length ts := tracks_rounds (stepsFrom parser) fun k hk =>
    tracks_stepsFrom (fun j hj => h j (hj.trans_le hk)) (Nat.le_refl _) (Nat.le_refl k)
  refine hmore.bind hs hb (Nat.le_refl _) fun es s ts hs => ?_
  exact .ok ⟨rfl, hs⟩

theorem tracks_filterPath :
    Reader.Tracks limit budget 11 17 n (Reader.filterPath nested budget) (filterPath parser) := by
  intro b hb s ts hs
  rw [Reader.filterPath, filterPath, Run.outcome_tick]
  refine (tracks_filterParser h).bind hs.tick hb (Nat.le_refl _) fun e s ts hs => ?_
  refine hs.current? ?_
  dsimp only
  cases hfront : ts.current? with
  | none => exact .ok ⟨rfl, hs.mono (by decide) (Nat.le_refl _)⟩
  | some kind =>
      cases kind with
      | slash | doubleSlash =>
          refine (hs.advance (by decide) hfront).passes fun k s ts hk hs => ?_
          refine (tracks_steps fun j hj => h j (hj.trans hk)).bind hs hb (Nat.zero_le _)
            fun es s ts hs => ?_
          exact .ok ⟨rfl, hs.mono (Nat.le_refl _) (Nat.le_of_lt hk)⟩
      | _ => exact .ok ⟨rfl, hs.mono (by decide) (Nat.le_refl _)⟩

theorem tracks_absoluteTail :
    Reader.Tracks limit budget 9 17 n (Reader.absoluteTail nested budget)
      (absoluteTail parser) := by
  intro b hb s ts hs
  rw [Reader.absoluteTail, absoluteTail, Run.outcome_tick]
  refine (hs.tick.atStep (by decide)).bind fun here s here' hhere => ?_
  obtain ⟨rfl, hs⟩ := hhere
  split
  · refine (tracks_steps h).bind hs hb (Nat.le_refl _) fun es s ts hs => ?_
    exact .ok ⟨rfl, hs⟩
  · exact .ok ⟨rfl, hs.mono (by decide) (Nat.le_refl _)⟩

theorem tracks_path :
    Reader.Tracks limit budget 9 17 n (Reader.path nested budget) (path parser) := by
  intro b hb s ts hs
  rw [Reader.path, path.eq_def, Run.outcome_tick]
  refine hs.tick.current? ?_
  cases hfront : ts.current?
  case' some kind => cases kind
  case some.slash =>
    refine (hs.tick.advance (by decide) hfront).passes fun k s ts hk hs => ?_
    exact (tracks_absoluteTail fun j hj => h j (hj.trans hk)).halts hs hb (Nat.zero_le _)
      (Nat.le_refl _) (Nat.le_of_lt hk)
  case some.doubleSlash =>
    refine (hs.tick.advance (by decide) hfront).passes fun k s ts hk hs => ?_
    refine (tracks_steps fun j hj => h j (hj.trans hk)).bind hs hb (Nat.zero_le _)
      fun es s ts hs => ?_
    exact .ok ⟨rfl, hs.mono (Nat.le_refl _) (Nat.le_of_lt hk)⟩
  all_goals
    refine (hs.tick.atStep (by decide)).bind fun here s here' hhere => ?_
    obtain ⟨rfl, hs⟩ := hhere
    split
    · refine (tracks_steps h).bind hs hb (Nat.le_refl _) fun es s ts hs => ?_
      exact .ok ⟨rfl, hs⟩
    · exact tracks_filterPath h b hb _ _ hs

theorem tracks_unions : Reader.Tracks limit budget 8 18 n (Reader.unions nested budget)
    (chain unionJoin? (path parser)) :=
  tracks_operation (by decide) fun k hk => tracks_path fun j hj => h j (hj.trans_le hk)

theorem tracks_product : Reader.Tracks limit budget 6 19 n (Reader.product nested budget)
    (chain productJoin? <| negation <| chain unionJoin? <| path parser) :=
  tracks_operation (by decide) fun k hk => tracks_negation (by decide) fun j hj =>
    tracks_unions fun i hi => h i (hi.trans_le (hj.trans hk))

theorem tracks_order : Reader.Tracks limit budget 4 21 n (Reader.order nested budget)
    (chain orderJoin? <| chain sumJoin? <| chain productJoin? <| negation <| chain unionJoin? <|
      path parser) :=
  tracks_operation (by decide) fun k hk => tracks_operation (by decide) fun j hj =>
    tracks_product fun i hi => h i (hi.trans_le (hj.trans hk))

theorem tracks_disjunction :
    Reader.Tracks limit budget 1 24 n (Reader.disjunction nested budget) (levels parser) :=
  tracks_operation (by decide) fun k hk => tracks_operation (by decide) fun j hj =>
    tracks_operation (by decide) fun i hi =>
      tracks_order fun l hl => h l (hl.trans_le (hi.trans (hj.trans hk)))

end

/-! ## Whole texts -/

/-- Brackets are nested no deeper than there are tokens, and every bracket is one. -/
theorem tracks_parseNested {depth : Nat} (hn : n < depth) :
    Reader.Tracks limit budget 0 24 n (Reader.expression budget) (parseNested depth) := by
  induction depth generalizing budget n with
  | zero => exact absurd hn (Nat.not_lt_zero n)
  | succ depth ih =>
      exact Tracks.call Reader.expression (fun _ => rfl) (by decide) fun budget _ =>
        tracks_disjunction fun k hk => ih (by omega)

/-- The first token is the current one, and nothing is behind it. -/
theorem halts_first (text : String) {limit b : Nat}
    (hlimit : (Tokens.ofText text).ahead.length ≤ limit) (hb : rate * (limit + 1) ≤ b) :
    Halts (fun front s ts => ts = Tokens.ofText text ∧
        Follows limit b 0 limit { s with state.current := front, state.peeked := none } ts)
      (Failed limit) (Reader.draw.outcome (Reader.start text)) (Tokens.ofText text).checked := by
  have hrest : (Reader.start text).state.lexer.rest = Tokens.ofText text := rfl
  rw [Reader.draw, Run.outcome_get, ← hrest]
  obtain ⟨err, hnext, hchecked⟩ | ⟨lexer, hnext, hchecked, hlexer⟩ :=
    (Reader.start text).state.lexer.next_cases
  · rw [hnext, hchecked]
    exact .error ⟨Nat.zero_le _, Nat.zero_le _, Nat.zero_le _, Nat.zero_le _⟩
  · rw [hnext, hchecked]
    have hbeyond : max 0 (0 - 0) ≤ 1 := by decide
    refine .ok ⟨rfl, rfl, .hidden rfl hlexer rfl, hbeyond, ⟨hb, Nat.zero_le _, Nat.zero_le _⟩, ?_,
      hlimit⟩
    exact Nat.le_trans (Nat.le_of_eq (Nat.zero_add _)) hlimit

theorem halts_whole {text : String} {budget : Nat}
    (hbudget : rate * ((Tokens.ofText text).ahead.length + 1) ≤ budget) :
    Halts (fun e s e' => e' = e ∧ Failed (Tokens.ofText text).ahead.length s)
      (Failed (Tokens.ofText text).ahead.length) (Reader.run budget text) (parse text) := by
  rw [Reader.run, Reader.whole, parse]
  refine (halts_first text (Nat.le_refl _) hbudget).bind fun front s ts hfirst => ?_
  obtain ⟨rfl, hs⟩ := hfirst
  rw [Reader.outcome_setCurrent]
  refine (tracks_parseNested (Nat.lt_succ_self _)).bind hs (Nat.le_refl _) (Nat.le_refl _)
    fun e s ts hs => ?_
  refine hs.current? ?_
  dsimp only
  split
  · exact .ok ⟨rfl, hs.failed (by decide)⟩
  · exact hs.unexpected (by decide)

end Expr

end TreeQuery
