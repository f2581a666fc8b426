import Mathlib.Data.List.Basic
import TreeQuery.Proofs.Expr.Sound

/-!
Whatever the grammar derives is read by the parser, and in one way only. A parser reads as much as
it can, so a phrase is read as derived where the token behind it cannot belong to the phrase.
Tokens are ranked by the phrases that they end.
-/
namespace TreeQuery.Expr

open TreeQuery.Text (Place)

/-! ## What can follow a phrase -/

/-- The larger the phrases that a token ends, the looser it stands. A parenthesis ends nothing, as
it would make the name in front of it the name of a function. -/
@[simp] def TokenKind.looseness : TokenKind → Nat
  | leftParen => 0
  | leftBracket => 1
  | slash | doubleSlash => 2
  | pipe => 3
  | star | div | mod => 4
  | plus | minus => 5
  | lt | ltEq | gt | gtEq => 6
  | eq | notEq => 7
  | and => 8
  | or => 9
  | comma => 10
  | _ => 11

@[simp] def Level.looseness : Level → Nat
  | product => 4
  | sum => 5
  | order => 6
  | equality => 7
  | and => 8
  | or => 9

/-- How loose a token must stand behind a phrase. -/
@[simp] def Phrase.looseness : Phrase → Nat
  | operation level _ => level.looseness
  | signed _ => 4
  | union _ | path _ | steps _ => 3
  | step _ | predicates _ | value _ => 2
  | primary _ => 0
  | arguments _ => 11

/-- The token in front, if there is one, stands at least so loose. -/
def Ends (bound : Nat) (rest : List TokenKind) : Prop :=
  ∀ kind, rest.head? = some kind → bound ≤ kind.looseness

theorem ends_nil {bound : Nat} : Ends bound [] := by
  intro kind hkind
  cases hkind

@[simp] theorem ends_cons {bound : Nat} {kind : TokenKind} {rest : List TokenKind} :
    Ends bound (kind :: rest) ↔ bound ≤ kind.looseness := by
  simp [Ends]

theorem Ends.mono {bound bound' : Nat} {rest : List TokenKind} (h : Ends bound rest)
    (hle : bound' ≤ bound) : Ends bound' rest :=
  fun kind hkind => Nat.le_trans hle (h kind hkind)

theorem Ends.head?_ne {bound : Nat} {rest : List TokenKind} {kind : TokenKind}
    (h : Ends bound rest) (hlt : kind.looseness < bound) : rest.head? ≠ some kind :=
  fun hkind => Nat.not_le_of_lt hlt (h kind hkind)

theorem Level.looseness_operators (level : Level) :
    ∀ entry ∈ level.operators, entry.1.looseness = level.looseness := by
  cases level <;> decide

theorem Ends.join?_eq_none (level : Level) {rest : List TokenKind}
    (h : Ends (level.looseness + 1) rest) : rest.head?.bind level.join? = none := by
  cases hrest : rest.head?.bind level.join? with
  | none => rfl
  | some join =>
      obtain ⟨kind, hkind, hjoin⟩ := Option.bind_eq_some_iff.mp hrest
      obtain ⟨op, hop, _⟩ := Level.join?_eq_some_iff.mp hjoin
      have hle := h kind hkind
      have heq := level.looseness_operators _ hop
      dsimp only at heq
      omega

theorem looseness_operand_le (level : Level) (e : Expr) :
    (level.operand e).looseness ≤ level.looseness := by
  cases level <;> simp [Level.operand]

/-! ## Tokens in front of the parser -/

namespace Tokens

/-- The tokens in front are of the given kinds, and the text ends behind them. -/
def Holds (ts : Tokens) (kinds : List TokenKind) : Prop :=
  ts.kinds = kinds ∧ ∃ place, ts.stop = .ok place

section
variable {ts : Tokens} {kinds rest : List TokenKind} {kind : TokenKind}

theorem Holds.current? (h : ts.Holds kinds) : ts.current? = kinds.head? := by
  rw [current?_eq, h.1]

theorem Holds.length (h : ts.Holds kinds) : ts.ahead.length = kinds.length := by
  rw [← h.1, Tokens.kinds, List.length_map]

theorem Holds.advance (h : ts.Holds (kind :: rest)) :
    ∃ ts', ts.advance = .ok ts' ∧ ts'.Holds rest := by
  obtain ⟨hkinds, hstop⟩ := h
  refine ⟨_, checked_eq_ok_iff.mpr ⟨rfl, fun _ => hstop⟩, ?_, hstop⟩
  exact List.map_tail.trans (congrArg List.tail hkinds)

theorem Holds.expect (h : ts.Holds (kind :: rest)) (what : String) :
    ∃ ts', ts.expect kind what = .ok ts' ∧ ts'.Holds rest := by
  have hcurrent : ts.current? = some kind := h.current?
  rw [Tokens.expect, if_pos hcurrent]
  exact h.advance

theorem Holds.peek (h : ts.Holds (kind :: rest)) : ts.peek = .ok rest.head? := by
  obtain ⟨ts', hadvance, hts'⟩ := h.advance
  rw [Tokens.peek, hadvance, Except.map, hts'.current?]

theorem Holds.atStep (h : ts.Holds kinds) : atStep ts = .ok (startsStep kinds) := by
  cases hstep : Expr.atStep ts with
  | ok b => rw [atStep_eq_ok hstep, h.1]
  | error err =>
      rw [Expr.atStep.eq_def] at hstep
      split at hstep
      case h_1 hname | h_2 hname =>
        have hholds : ts.Holds (_ :: ts.kinds.tail) := ⟨kinds_of_current? hname, h.2⟩
        rw [hholds.peek] at hstep
        cases hstep
      all_goals cases hstep

end

end Tokens

open Tokens (Holds)

/-! ## Parsers without lookahead -/

section
variable {nested : Parser Expr} {ts ts₁ ts₂ : Tokens} {kinds rest : List TokenKind}

theorem chainFrom_of_none {operand : Parser Expr}
    {join? : TokenKind → Option (Expr → Expr → Expr)} {rounds : Nat} {left : Expr}
    (h : ts.current?.bind join? = none) :
    chainFrom operand join? rounds left ts = .ok (left, ts) := by
  cases rounds with
  | zero => rfl
  | succ rounds => rw [chainFrom, h]

theorem chainFrom_of_some {operand : Parser Expr}
    {join? : TokenKind → Option (Expr → Expr → Expr)} {join : Expr → Expr → Expr} {rounds : Nat}
    {left right : Expr} (h : ts.current?.bind join? = some join) (hadvance : ts.advance = .ok ts₁)
    (hright : operand ts₁ = .ok (right, ts₂)) :
    chainFrom operand join? (rounds + 1) left ts =
      chainFrom operand join? rounds (join left right) ts₂ := by
  rw [chainFrom, h]
  simp only [hadvance, hright, ok_bind]

theorem predicatesFrom_of_ne {rounds : Nat} (h : ts.current? ≠ some .leftBracket) :
    predicatesFrom nested rounds ts = .ok ([], ts) := by
  cases rounds with
  | zero => rfl
  | succ rounds => rw [predicatesFrom, if_neg h]

theorem argumentsFrom_of_ne {rounds : Nat} (h : ts.current? ≠ some .comma) :
    argumentsFrom nested rounds ts = .ok ([], ts) := by
  cases rounds with
  | zero => rfl
  | succ rounds => rw [argumentsFrom, if_neg h]

theorem stepsFrom_of_ne {rounds : Nat} (hslash : ts.current? ≠ some .slash)
    (hdouble : ts.current? ≠ some .doubleSlash) :
    stepsFrom nested rounds ts = .ok ([], ts) := by
  cases rounds with
  | zero => rfl
  | succ rounds =>
      rw [stepsFrom]
      split
      · contradiction
      · contradiction
      · rfl

theorem path_of_startsStep (hts : ts.Holds kinds) (h : startsStep kinds = true) :
    path nested ts = (do
      let (es, ts) ← steps nested ts
      .ok (relative es, ts)) := by
  rw [path.eq_def, hts.current?]
  split
  · rename_i hslash
    obtain ⟨rest, rfl⟩ := List.head?_eq_some_iff.mp hslash
    cases h
  · rename_i hslash
    obtain ⟨rest, rfl⟩ := List.head?_eq_some_iff.mp hslash
    cases h
  · rw [hts.atStep, h, ok_bind, if_pos rfl]

theorem path_of_not_startsStep (hts : ts.Holds kinds) (h : startsStep kinds = false)
    (hslash : kinds.head? ≠ some .slash) (hdouble : kinds.head? ≠ some .doubleSlash) :
    path nested ts = filterPath nested ts := by
  rw [path.eq_def, hts.current?]
  split
  · contradiction
  · contradiction
  · rw [hts.atStep, h, ok_bind, if_neg Bool.false_ne_true]

end

/-! ## Steps -/

/-- Tokens with which a node test starts. -/
def TokenKind.startsTest : TokenKind → Bool
  | star | name _ | nameTest _ _ | nodeType _ => true
  | _ => false

section
variable {ts : Tokens} {axis : Axis} {test : NodeTest} {as bs more : List TokenKind}

theorem TestTokens.head (h : TestTokens test bs) :
    ∃ kind mid, bs = kind :: mid ∧ kind.startsTest = true := by
  cases h <;> exact ⟨_, _, rfl, rfl⟩

theorem stepAxis_of_axisTokens {kind : TokenKind} (haxis : AxisTokens axis as)
    (hkind : kind.startsTest = true) (hts : ts.Holds (as ++ kind :: more)) :
    ∃ ts', ts'.Holds (kind :: more) ∧ stepAxis ts = .ok (axis, ts') := by
  cases haxis with
  | child =>
      refine ⟨ts, hts, ?_⟩
      rw [stepAxis.eq_def, hts.current?]
      cases kind <;> first | rfl | cases hkind
  | attributes =>
      obtain ⟨ts', hadvance, hts'⟩ := hts.advance
      refine ⟨ts', hts', ?_⟩
      rw [stepAxis.eq_def, hts.current?]
      simp only [List.cons_append, List.head?_cons, hadvance, ok_bind]
  | named =>
      obtain ⟨ts₁, hadvance, hts₁⟩ := hts.advance
      obtain ⟨ts', hexpect, hts'⟩ := hts₁.expect "'::' after axis name"
      refine ⟨ts', hts', ?_⟩
      rw [stepAxis.eq_def, hts.current?]
      simp only [List.cons_append, List.head?_cons, Axis.ofName?_name, hadvance, hexpect, ok_bind]

theorem typeTarget_empty (text : String) (hts : ts.Holds (.leftParen :: .rightParen :: more)) :
    ∃ ts', ts'.Holds more ∧ typeTarget text ts = .ok (none, ts') := by
  obtain ⟨ts₁, hopen, hts₁⟩ := hts.expect "'('"
  obtain ⟨ts', hclose, hts'⟩ := hts₁.expect "')'"
  refine ⟨ts', hts', ?_⟩
  simp only [typeTarget, hopen, ok_bind, hts₁.current?, List.head?_cons, hclose]

theorem typeTarget_string {text : String}
    (hts : ts.Holds (.leftParen :: .string text :: .rightParen :: more)) :
    ∃ ts', ts'.Holds more ∧
      typeTarget "processing-instruction" ts = .ok (some text, ts') := by
  obtain ⟨ts₁, hopen, hts₁⟩ := hts.expect "'('"
  obtain ⟨ts₂, hadvance, hts₂⟩ := hts₁.advance
  obtain ⟨ts', hclose, hts'⟩ := hts₂.expect "')'"
  refine ⟨ts', hts', ?_⟩
  simp only [typeTarget, hopen, ok_bind, hts₁.current?, List.head?_cons, hadvance, hclose, if_true]

theorem nodeTest_of_testTokens (htest : TestTokens test bs) (hts : ts.Holds (bs ++ more)) :
    ∃ ts', ts'.Holds more ∧ nodeTest ts = .ok (test, ts') := by
  have hcurrent := hts.current?
  cases htest with
  | @type text _ h =>
      obtain ⟨ts₁, hadvance, hts₁⟩ := hts.advance
      obtain ⟨ts', hts', htarget⟩ := typeTarget_empty text hts₁
      refine ⟨ts', hts', ?_⟩
      rw [nodeTest.eq_def, hcurrent]
      simp only [List.cons_append, List.head?_cons, hadvance, htarget, ok_bind]
      simp only [typeTests, List.mem_cons, Prod.mk.injEq, List.not_mem_nil, or_false] at h
      rcases h with ⟨rfl, rfl⟩ | ⟨rfl, rfl⟩ | ⟨rfl, rfl⟩ | ⟨rfl, rfl⟩ | ⟨rfl, rfl⟩ <;> rfl
  | target text =>
      obtain ⟨ts₁, hadvance, hts₁⟩ := hts.advance
      obtain ⟨ts', hts', htarget⟩ := typeTarget_string hts₁
      refine ⟨ts', hts', ?_⟩
      rw [nodeTest.eq_def, hcurrent]
      simp only [List.cons_append, List.head?_cons, hadvance, htarget, ok_bind]
      rfl
  | any | name =>
      obtain ⟨ts', hadvance, hts'⟩ := hts.advance
      refine ⟨ts', hts', ?_⟩
      rw [nodeTest.eq_def, hcurrent]
      simp only [List.cons_append, List.head?_cons, hadvance, ok_bind]
  | anyPrefixed | anyNamed | anyIn | qualified =>
      obtain ⟨ts', hadvance, hts'⟩ := hts.advance
      refine ⟨ts', hts', ?_⟩
      rw [nodeTest.eq_def, hcurrent]
      simp_all [prefixedTest]

end

/-- The axis and the node test of a step, which starts with neither dot. -/
theorem stepAxis_nodeTest {axis : Axis} {test : NodeTest} {as bs more : List TokenKind}
    {ts : Tokens} (haxis : AxisTokens axis as) (htest : TestTokens test bs)
    (hts : ts.Holds (as ++ (bs ++ more))) :
    ∃ ts₁ ts₂, ts₂.Holds more ∧ (ts.current? ≠ some .dot ∧ ts.current? ≠ some .doubleDot) ∧
      stepAxis ts = .ok (axis, ts₁) ∧ nodeTest ts₁ = .ok (test, ts₂) := by
  obtain ⟨kind, mid, rfl, hkind⟩ := htest.head
  obtain ⟨ts₁, hts₁, haxis'⟩ := stepAxis_of_axisTokens haxis hkind hts
  obtain ⟨ts₂, hts₂, htest'⟩ := nodeTest_of_testTokens htest hts₁
  refine ⟨ts₁, ts₂, hts₂, ?_, haxis', htest'⟩
  rw [hts.current?]
  cases haxis with
  | child => cases kind <;> simp_all [TokenKind.startsTest]
  | attributes | named => simp

/-! ## What a phrase starts with -/

theorem startsStep_of_step {e : Expr} {ts rest : List TokenKind} (h : Derives (.step e) ts rest)
    (hrest : Ends 2 rest) : startsStep ts = true := by
  cases h with
  | dot | doubleDot => rfl
  | @step _ _ _ as bs mid _ haxis htest hpredicates =>
      have hmid : mid.head? ≠ some .leftParen := by
        cases hpredicates with
        | noPredicate => exact hrest.head?_ne (by decide)
        | predicate => simp
      cases haxis with
      | child => cases htest <;> first | rfl | simpa [startsStep] using hmid
      | attributes | named => rfl

theorem startsStep_of_steps {es : List Expr} {ts rest : List TokenKind}
    (h : Derives (.steps es) ts rest) (hrest : Ends 2 rest) : startsStep ts = true := by
  cases h with
  | lastStep h => exact startsStep_of_step h hrest
  | stepSlash h | stepAnyDepth h => exact startsStep_of_step h (by simp)

theorem head_of_primary {e : Expr} {ts rest : List TokenKind} (h : Derives (.primary e) ts rest) :
    startsStep ts = false ∧ ts.head? ≠ some .slash ∧ ts.head? ≠ some .doubleSlash := by
  cases h with
  | number | string | reference | parenthesised => simp [startsStep]
  | emptyCall hname | call hname => cases hname <;> simp [startsStep]

theorem head_of_value {e : Expr} {ts rest : List TokenKind} (h : Derives (.value e) ts rest) :
    startsStep ts = false ∧ ts.head? ≠ some .slash ∧ ts.head? ≠ some .doubleSlash := by
  cases h with
  | plain h | filter h => exact head_of_primary h

/-- A phrase starts with no token that only ends or joins phrases. -/
theorem Derives.head?_ne {p : Phrase} {ts rest : List TokenKind} {kind : TokenKind}
    (h : Derives p ts rest) (hkind : p.startsWith kind = false) : ts.head? ≠ some kind := by
  obtain ⟨first, mid, rfl, hfirst⟩ | ⟨es, rfl⟩ := h.head
  · rintro hhead
    cases hhead
    exact Bool.false_ne_true (hkind.symm.trans hfirst)
  · cases hkind

/-! ## Reading what is derived -/

/-- The parser gives a value and leaves the rest. -/
def Runs {α : Type} (parser : Parser α) (ts : Tokens) (a : α) (rest : List TokenKind) : Prop :=
  ∃ ts', ts'.Holds rest ∧ parser ts = .ok (a, ts')

/-- A chain is read up to an operand, with rounds enough for all that may follow. -/
def RunsTo (join? : TokenKind → Option (Expr → Expr → Expr)) (operand : Parser Expr) (ts : Tokens)
    (e : Expr) (rest : List TokenKind) : Prop :=
  ∃ ts' rounds, ts'.Holds rest ∧ rest.length ≤ rounds ∧
    chain join? operand ts = chainFrom operand join? rounds e ts'

section
variable {join? : TokenKind → Option (Expr → Expr → Expr)} {operand : Parser Expr} {ts : Tokens}
  {e left right : Expr} {kind : TokenKind} {mid rest : List TokenKind}

theorem Runs.chain (h : Runs operand ts e rest) : RunsTo join? operand ts e rest := by
  obtain ⟨ts', hts', hrun⟩ := h
  refine ⟨ts', _, hts', Nat.le_of_eq hts'.length.symm, ?_⟩
  rw [Expr.chain, hrun, ok_bind]

theorem RunsTo.join {join : Expr → Expr → Expr} (h : RunsTo join? operand ts left (kind :: mid))
    (hjoin : join? kind = some join)
    (hright : ∀ {ts' : Tokens}, ts'.Holds mid → Runs operand ts' right rest)
    (hle : rest.length ≤ mid.length) : RunsTo join? operand ts (join left right) rest := by
  obtain ⟨ts₁, rounds, hts₁, hrounds, hrun⟩ := h
  obtain ⟨ts₂, hadvance, hts₂⟩ := hts₁.advance
  obtain ⟨ts', hts', hright⟩ := hright hts₂
  obtain ⟨rounds, rfl⟩ := Nat.exists_eq_add_of_le' (Nat.le_trans (Nat.succ_pos _) hrounds)
  have hcurrent : ts₁.current?.bind join? = some join := by
    rw [hts₁.current?]
    exact hjoin
  refine ⟨ts', rounds, hts', ?_, hrun.trans (chainFrom_of_some hcurrent hadvance hright)⟩
  rw [List.length_cons] at hrounds
  omega

theorem RunsTo.stop (h : RunsTo join? operand ts e rest)
    (hrest : rest.head?.bind join? = none) : Runs (Expr.chain join? operand) ts e rest := by
  obtain ⟨ts', rounds, hts', _, hrun⟩ := h
  refine ⟨ts', hts', hrun.trans (chainFrom_of_none ?_)⟩
  rw [hts'.current?, hrest]

end

/-- The levels inside a level, the loosest first. -/
def Level.tighter : Level → List Level
  | or => [and, equality, order, sum, product]
  | and => [equality, order, sum, product]
  | equality => [order, sum, product]
  | order => [sum, product]
  | sum => [product]
  | product => []

/-- The parser of what stands between the operators of a level. -/
def Level.operandParser (nested : Parser Expr) (level : Level) : Parser Expr :=
  level.tighter.foldr (fun level operand => chain level.join? operand)
    (negation (chain unionJoin? (path nested)))

/-- The parser for a phrase takes it from the tokens and leaves the rest. What repeats is read as
far as the derivation goes, with as many rounds to go as there are tokens left. -/
def Parses (depth : Nat) (ts : Tokens) (rest : List TokenKind) : Phrase → Prop
  | .operation level e => RunsTo level.join? (level.operandParser (parseNested depth)) ts e rest
  | .signed e => ∀ rounds, ts.ahead.length ≤ rounds →
      Runs (negationFrom (chain unionJoin? (path (parseNested depth))) rounds) ts e rest
  | .union e => RunsTo unionJoin? (path (parseNested depth)) ts e rest
  | .path e => Runs (path (parseNested depth)) ts e rest
  | .steps es => ∃ first more ts₁, es = first :: more ∧ ts₁.ahead.length ≤ ts.ahead.length ∧
      stepParser (parseNested depth) ts = .ok (first, ts₁) ∧
        ∀ rounds, ts₁.ahead.length ≤ rounds →
          Runs (stepsFrom (parseNested depth) rounds) ts₁ more rest
  | .step e => Runs (stepParser (parseNested depth)) ts e rest
  | .predicates es => ∀ rounds, ts.ahead.length ≤ rounds →
      Runs (predicatesFrom (parseNested depth) rounds) ts es rest
  | .value e => Runs (filterParser (parseNested depth)) ts e rest
  | .primary e => Runs (primary (parseNested depth)) ts e rest
  | .arguments es => ∃ first more ts₁, es = first :: more ∧ ts₁.ahead.length ≤ ts.ahead.length ∧
      parseNested (depth + 1) ts = .ok (first, ts₁) ∧
        ∀ rounds, ts₁.ahead.length ≤ rounds →
          Runs (argumentsFrom (parseNested (depth + 1)) rounds) ts₁ more rest

section
variable {depth : Nat} {ts : Tokens} {kind : TokenKind} {mid rest : List TokenKind} {e : Expr}
  {es : List Expr}

theorem Parses.whole (h : Parses depth ts rest (.whole e)) (hrest : Ends 10 rest) :
    Runs (parseNested (depth + 1)) ts e rest :=
  RunsTo.stop h (Ends.join?_eq_none .or hrest)

/-- What stands between the operators of a level is read to its end. -/
theorem Parses.operand {level : Level} (h : Parses depth ts rest (level.operand e))
    (hrest : Ends level.looseness rest) :
    Runs (level.operandParser (parseNested depth)) ts e rest := by
  cases level with
  | or => exact RunsTo.stop h (Ends.join?_eq_none .and hrest)
  | and => exact RunsTo.stop h (Ends.join?_eq_none .equality hrest)
  | equality => exact RunsTo.stop h (Ends.join?_eq_none .order hrest)
  | order => exact RunsTo.stop h (Ends.join?_eq_none .sum hrest)
  | sum => exact RunsTo.stop h (Ends.join?_eq_none .product hrest)
  | product => exact h _ (Nat.le_refl _)

/-! ### Minus signs -/

theorem parses_unsigned (h : Parses depth ts rest (.union e)) (hrest : Ends 4 rest)
    (hminus : ts.current? ≠ some .minus) : Parses depth ts rest (.signed e) := by
  have hstop : rest.head?.bind unionJoin? = none := by
    cases hkind : rest.head? with
    | none => rfl
    | some kind =>
        have hle := hrest kind hkind
        cases kind <;> first | rfl | simp at hle
  intro rounds _
  obtain ⟨ts', hts', hrun⟩ := RunsTo.stop h hstop
  refine ⟨ts', hts', ?_⟩
  cases rounds with
  | zero => exact hrun
  | succ rounds => rw [negationFrom, if_neg hminus, hrun]

theorem parses_minus (hts : ts.Holds (.minus :: mid))
    (h : ∀ {ts₁ : Tokens}, ts₁.Holds mid → Parses depth ts₁ rest (.signed e)) :
    Parses depth ts rest (.signed (negate e)) := by
  intro rounds hrounds
  have hcurrent : ts.current? = some .minus := hts.current?
  obtain ⟨ts₁, hadvance, hts₁⟩ := hts.advance
  rw [hts.length, List.length_cons] at hrounds
  obtain ⟨rounds, rfl⟩ := Nat.exists_eq_add_of_le' (Nat.le_trans (Nat.succ_pos _) hrounds)
  obtain ⟨ts', hts', hrun⟩ := h hts₁ rounds (by rw [hts₁.length]; omega)
  refine ⟨ts', hts', ?_⟩
  rw [negationFrom, if_pos hcurrent, hadvance, ok_bind, hrun, ok_bind]

/-! ### Steps -/

theorem Parses.steps (h : Parses depth ts rest (.steps es)) :
    Runs (steps (parseNested depth)) ts es rest := by
  obtain ⟨first, more, ts₁, rfl, _, hfirst, hmore⟩ := h
  obtain ⟨ts', hts', hrun⟩ := hmore _ (Nat.le_refl _)
  refine ⟨ts', hts', ?_⟩
  simp only [Expr.steps, hfirst, hrun, ok_bind]

/-- A step that is written out, from its axis to its last predicate. -/
theorem parses_writtenStep {axis : Axis} {test : NodeTest} {as bs : List TokenKind}
    (haxis : AxisTokens axis as) (htest : TestTokens test bs) (hts : ts.Holds (as ++ (bs ++ mid)))
    (hes : ∀ {ts₁ : Tokens}, ts₁.Holds mid → Parses depth ts₁ rest (.predicates es)) :
    Parses depth ts rest (.step (step axis test es)) := by
  obtain ⟨ts₁, ts₂, hts₂, ⟨hdot, hdouble⟩, haxis, htest⟩ := stepAxis_nodeTest haxis htest hts
  obtain ⟨ts', hts', hrun⟩ := hes hts₂ _ (Nat.le_refl _)
  refine ⟨ts', hts', ?_⟩
  rw [stepParser.eq_def]
  split
  · exact absurd ‹_› hdot
  · exact absurd ‹_› hdouble
  · simp only [haxis, htest, predicates, hrun, ok_bind]

theorem parses_lastStep (h : Parses depth ts rest (.step e)) (hrest : Ends 3 rest)
    (hle : rest.length ≤ ts.ahead.length) : Parses depth ts rest (.steps [e]) := by
  obtain ⟨ts', hts', hrun⟩ := h
  refine ⟨e, [], ts', rfl, by rwa [hts'.length], hrun, fun rounds _ => ⟨ts', hts', ?_⟩⟩
  refine stepsFrom_of_ne ?_ ?_ <;> rw [hts'.current?] <;> exact hrest.head?_ne (by simp)

/-- A step and those behind a slash. The second slash of two adds a step of its own. -/
theorem parses_step {more : List Expr} (h : Parses depth ts (kind :: mid) (.step e))
    (hkind : kind = .slash ∧ more = es ∨ kind = .doubleSlash ∧ more = anyDepth :: es)
    (hes : ∀ {ts₂ : Tokens}, ts₂.Holds mid → Parses depth ts₂ rest (.steps es))
    (hle : mid.length < ts.ahead.length) : Parses depth ts rest (.steps (e :: more)) := by
  obtain ⟨ts₁, hts₁, hrun⟩ := h
  obtain ⟨ts₂, hadvance, hts₂⟩ := hts₁.advance
  obtain ⟨second, others, ts₃, rfl, hle₃, hsecond, hothers⟩ := hes hts₂
  refine ⟨e, more, ts₁, rfl, by rwa [hts₁.length], hrun, fun rounds hrounds => ?_⟩
  rw [hts₁.length, List.length_cons] at hrounds
  rw [hts₂.length] at hle₃
  obtain ⟨rounds, rfl⟩ := Nat.exists_eq_add_of_le' (Nat.le_trans (Nat.succ_pos _) hrounds)
  obtain ⟨ts', hts', hrun'⟩ := hothers rounds (by omega)
  refine ⟨ts', hts', ?_⟩
  rw [stepsFrom, hts₁.current?]
  rcases hkind with ⟨rfl, rfl⟩ | ⟨rfl, rfl⟩ <;>
    simp only [List.head?_cons, hadvance, hsecond, hrun', ok_bind]

/-! ### Predicates and arguments -/

theorem parses_noPredicate (hts : ts.Holds rest) (hrest : Ends 2 rest) :
    Parses depth ts rest (.predicates []) := by
  refine fun rounds _ => ⟨ts, hts, predicatesFrom_of_ne ?_⟩
  rw [hts.current?]
  exact hrest.head?_ne (by simp)

theorem parses_predicate (hts : ts.Holds (.leftBracket :: mid)) {behind : List TokenKind}
    (he : ∀ {ts₁ : Tokens}, ts₁.Holds mid →
      Runs (parseNested depth) ts₁ e (.rightBracket :: behind))
    (hes : ∀ {ts₁ : Tokens}, ts₁.Holds behind → Parses depth ts₁ rest (.predicates es))
    (hle : behind.length ≤ mid.length) : Parses depth ts rest (.predicates (e :: es)) := by
  intro rounds hrounds
  rw [hts.length, List.length_cons] at hrounds
  obtain ⟨rounds, rfl⟩ := Nat.exists_eq_add_of_le' (Nat.le_trans (Nat.succ_pos _) hrounds)
  have hcurrent : ts.current? = some .leftBracket := hts.current?
  obtain ⟨ts₁, hadvance, hts₁⟩ := hts.advance
  obtain ⟨ts₂, hts₂, hrun⟩ := he hts₁
  obtain ⟨ts₃, hexpect, hts₃⟩ := hts₂.expect "']'"
  obtain ⟨ts', hts', hrun'⟩ := hes hts₃ rounds (by rw [hts₃.length]; omega)
  refine ⟨ts', hts', ?_⟩
  rw [predicatesFrom, if_pos hcurrent]
  simp only [predicate, hadvance, hrun, hexpect, hrun', ok_bind]

theorem parses_lastArgument (h : Runs (parseNested (depth + 1)) ts e rest)
    (hrest : rest.head? ≠ some .comma) (hle : rest.length ≤ ts.ahead.length) :
    Parses depth ts rest (.arguments [e]) := by
  obtain ⟨ts', hts', hrun⟩ := h
  refine ⟨e, [], ts', rfl, by rwa [hts'.length], hrun, fun rounds _ => ⟨ts', hts', ?_⟩⟩
  exact argumentsFrom_of_ne (hts'.current? ▸ hrest)

theorem parses_argument (h : Runs (parseNested (depth + 1)) ts e (.comma :: mid))
    (hes : ∀ {ts₂ : Tokens}, ts₂.Holds mid → Parses depth ts₂ rest (.arguments es))
    (hle : mid.length < ts.ahead.length) : Parses depth ts rest (.arguments (e :: es)) := by
  obtain ⟨ts₁, hts₁, hrun⟩ := h
  have hcurrent : ts₁.current? = some .comma := hts₁.current?
  obtain ⟨ts₂, hadvance, hts₂⟩ := hts₁.advance
  obtain ⟨second, others, ts₃, rfl, hle₃, hsecond, hothers⟩ := hes hts₂
  refine ⟨e, _, ts₁, rfl, by rwa [hts₁.length], hrun, fun rounds hrounds => ?_⟩
  rw [hts₁.length, List.length_cons] at hrounds
  rw [hts₂.length] at hle₃
  obtain ⟨rounds, rfl⟩ := Nat.exists_eq_add_of_le' (Nat.le_trans (Nat.succ_pos _) hrounds)
  obtain ⟨ts', hts', hrun'⟩ := hothers rounds (by omega)
  refine ⟨ts', hts', ?_⟩
  rw [argumentsFrom, if_pos hcurrent]
  simp only [hadvance, hsecond, hrun', ok_bind]

theorem Parses.arguments (h : Parses depth ts rest (.arguments es))
    (hne : ts.current? ≠ some .rightParen) :
    Runs (arguments (parseNested (depth + 1))) ts es rest := by
  obtain ⟨first, more, ts₁, rfl, _, hfirst, hmore⟩ := h
  obtain ⟨ts', hts', hrun⟩ := hmore _ (Nat.le_refl _)
  refine ⟨ts', hts', ?_⟩
  rw [Expr.arguments, if_neg hne]
  simp only [hfirst, hrun, ok_bind]

/-- A call is read when what stands between its parentheses is. -/
theorem parses_functionToken {name : String} (hname : FunctionToken name kind)
    (hts : ts.Holds (kind :: .leftParen :: mid))
    (hargs : ∀ {ts₂ : Tokens}, ts₂.Holds mid →
      Runs (arguments (parseNested depth)) ts₂ es (.rightParen :: rest)) :
    Parses depth ts rest (.primary (call name es)) := by
  obtain ⟨ts₁, hadvance, hts₁⟩ := hts.advance
  obtain ⟨ts₂, hopen, hts₂⟩ := hts₁.expect "'(' after function name"
  obtain ⟨ts₃, hts₃, hrun⟩ := hargs hts₂
  obtain ⟨ts', hclose, hts'⟩ := hts₃.expect "')' after function arguments"
  have hcall : functionCall (parseNested depth) name ts = .ok (call name es, ts') := by
    simp only [functionCall, hadvance, hopen, hrun, hclose, ok_bind]
  refine ⟨ts', hts', ?_⟩
  rw [primary.eq_def, hts.current?]
  cases hname <;> exact hcall

/-! ### Values and paths -/

theorem parses_parenthesised (hts : ts.Holds (.leftParen :: mid))
    (h : ∀ {ts₁ : Tokens}, ts₁.Holds mid →
      Runs (parseNested depth) ts₁ e (.rightParen :: rest)) :
    Parses depth ts rest (.primary e) := by
  obtain ⟨ts₁, hadvance, hts₁⟩ := hts.advance
  obtain ⟨ts₂, hts₂, hrun⟩ := h hts₁
  obtain ⟨ts', hexpect, hts'⟩ := hts₂.expect "')'"
  refine ⟨ts', hts', ?_⟩
  rw [primary.eq_def, hts.current?]
  simp only [List.head?_cons, hadvance, hrun, hexpect, ok_bind]

theorem parses_filter (es : List Expr) (h : Parses depth ts mid (.primary e))
    (hes : ∀ {ts₁ : Tokens}, ts₁.Holds mid → Parses depth ts₁ rest (.predicates es)) :
    Parses depth ts rest (.value (if es.isEmpty then e else filter e es)) := by
  obtain ⟨ts₁, hts₁, hrun⟩ := h
  obtain ⟨ts', hts', hrun'⟩ := hes hts₁ _ (Nat.le_refl _)
  refine ⟨ts', hts', ?_⟩
  simp only [filterParser, predicates, hrun, hrun', ok_bind]

theorem parses_root (hts : ts.Holds (.slash :: rest)) (hstep : startsStep rest = false) :
    Parses depth ts rest (.path (absolute [])) := by
  obtain ⟨ts', hadvance, hts'⟩ := hts.advance
  refine ⟨ts', hts', ?_⟩
  rw [path.eq_def, hts.current?]
  simp only [List.head?_cons, hadvance, ok_bind, absoluteTail, hts'.atStep, hstep]
  rfl

/-- Steps behind a slash are read as such, as the parser sees a step in front. -/
theorem parses_absolute (hts : ts.Holds (.slash :: mid)) (hstep : startsStep mid = true)
    (hes : ∀ {ts₁ : Tokens}, ts₁.Holds mid → Parses depth ts₁ rest (.steps es)) :
    Parses depth ts rest (.path (absolute es)) := by
  obtain ⟨ts₁, hadvance, hts₁⟩ := hts.advance
  obtain ⟨ts', hts', hrun⟩ := (hes hts₁).steps
  refine ⟨ts', hts', ?_⟩
  rw [path.eq_def, hts.current?]
  simp only [List.head?_cons, hadvance, ok_bind, absoluteTail, hts₁.atStep, hstep, if_true, hrun]

theorem parses_absoluteAnyDepth (hts : ts.Holds (.doubleSlash :: mid))
    (hes : ∀ {ts₁ : Tokens}, ts₁.Holds mid → Parses depth ts₁ rest (.steps es)) :
    Parses depth ts rest (.path (absolute (anyDepth :: es))) := by
  obtain ⟨ts₁, hadvance, hts₁⟩ := hts.advance
  obtain ⟨ts', hts', hrun⟩ := (hes hts₁).steps
  refine ⟨ts', hts', ?_⟩
  rw [path.eq_def, hts.current?]
  simp only [List.head?_cons, hadvance, ok_bind, hrun]

theorem parses_relative (hts : ts.Holds mid) (hstep : startsStep mid = true)
    (hes : Parses depth ts rest (.steps es)) : Parses depth ts rest (.path (relative es)) := by
  obtain ⟨ts', hts', hrun⟩ := hes.steps
  refine ⟨ts', hts', ?_⟩
  rw [path_of_startsStep hts hstep, hrun, ok_bind]

/-- A path from a value leads on by the steps behind a slash. -/
theorem parses_valueSteps {kinds : List TokenKind} {more : List Expr} (hts : ts.Holds kinds)
    (hvalue : Derives (.value e) kinds (kind :: mid))
    (h : Parses depth ts (kind :: mid) (.value e))
    (hkind : kind = .slash ∧ more = es ∨ kind = .doubleSlash ∧ more = anyDepth :: es)
    (hes : ∀ {ts₂ : Tokens}, ts₂.Holds mid → Parses depth ts₂ rest (.steps es)) :
    Parses depth ts rest (.path (relative (e :: more))) := by
  obtain ⟨hstep, hslash, hdouble⟩ := head_of_value hvalue
  obtain ⟨ts₁, hts₁, hrun⟩ := h
  obtain ⟨ts₂, hadvance, hts₂⟩ := hts₁.advance
  obtain ⟨ts', hts', hrun'⟩ := (hes hts₂).steps
  refine ⟨ts', hts', ?_⟩
  rw [path_of_not_startsStep hts hstep hslash hdouble, filterPath, hrun, ok_bind]
  rcases hkind with ⟨rfl, rfl⟩ | ⟨rfl, rfl⟩ <;>
    simp only [hts₁.current?, List.head?_cons, hadvance, hrun', ok_bind]

theorem parses_valuePath {kinds : List TokenKind} (hts : ts.Holds kinds)
    (hvalue : Derives (.value e) kinds rest) (h : Parses depth ts rest (.value e))
    (hrest : Ends 3 rest) : Parses depth ts rest (.path e) := by
  obtain ⟨hstep, hslash, hdouble⟩ := head_of_value hvalue
  obtain ⟨ts', hts', hrun⟩ := h
  refine ⟨ts', hts', ?_⟩
  rw [path_of_not_startsStep hts hstep hslash hdouble, filterPath, hrun, ok_bind]
  simp only [hts'.current?]
  split
  · exact absurd ‹_› (hrest.head?_ne (by simp))
  · exact absurd ‹_› (hrest.head?_ne (by simp))
  · rfl

end

/-! ### Derivations -/

/-- What is derived is parsed, where the token behind it ends it and brackets may be nested as deep
as there are tokens. -/
theorem parses_of_derives {p : Phrase} {kinds rest : List TokenKind} (h : Derives p kinds rest)
    {depth : Nat} {ts : Tokens} (hts : ts.Holds kinds) (hdepth : kinds.length ≤ depth)
    (hrest : Ends p.looseness rest) : Parses depth ts rest p := by
  induction h generalizing depth ts with
  | @operand level e _ _ _ ih =>
      exact ((ih hts hdepth (hrest.mono (looseness_operand_le level e))).operand hrest).chain
  | @operation level left right kind op _ mid rest hleft hop hright ihleft ihright =>
      have hkind := level.looseness_operators _ hop
      have hle := hleft.suffix.length_le
      simp only [List.length_cons] at hle
      have hends : Ends level.looseness (kind :: mid) := ends_cons.mpr (Nat.le_of_eq hkind.symm)
      refine RunsTo.join (ihleft hts hdepth hends) (Level.join?_eq_some_iff.mpr ⟨op, hop, rfl⟩)
        (fun hts₂ => ?_) hright.suffix.length_le
      exact (ihright hts₂ (by omega) (hrest.mono (looseness_operand_le level right))).operand hrest
  | unsigned h ih =>
      refine parses_unsigned (ih hts hdepth (hrest.mono (by simp))) hrest ?_
      rw [hts.current?]
      exact h.head?_ne rfl
  | minus h ih =>
      exact parses_minus hts fun hts₁ => ih hts₁ (Nat.le_of_succ_le hdepth) hrest
  | member h ih => exact (show Runs _ _ _ _ from ih hts hdepth hrest).chain
  | union hleft hright ihleft ihright =>
      have hle := hleft.suffix.length_le
      simp only [List.length_cons] at hle
      exact RunsTo.join (ihleft hts hdepth (by simp)) rfl
        (fun hts₂ => ihright hts₂ (by omega) hrest) hright.suffix.length_le
  | root h => exact parses_root hts h
  | absolute h ih =>
      exact parses_absolute hts (startsStep_of_steps h (hrest.mono (by simp)))
        fun hts₁ => ih hts₁ (Nat.le_of_succ_le hdepth) hrest
  | absoluteAnyDepth h ih =>
      exact parses_absoluteAnyDepth hts fun hts₁ => ih hts₁ (Nat.le_of_succ_le hdepth) hrest
  | relative h ih =>
      exact parses_relative hts (startsStep_of_steps h (hrest.mono (by simp)))
        (ih hts hdepth hrest)
  | valuePath h ih =>
      exact parses_valuePath hts h (ih hts hdepth (hrest.mono (by simp))) hrest
  | valueSteps h hsteps ih ihsteps | valueAnyDepth h hsteps ih ihsteps =>
      have hle := h.suffix.length_le
      simp only [List.length_cons] at hle
      refine parses_valueSteps hts h (ih hts hdepth (by simp)) ?_
        fun hts₂ => ihsteps hts₂ (by omega) hrest
      simp
  | lastStep h ih =>
      refine parses_lastStep (ih hts hdepth (hrest.mono (by simp))) hrest ?_
      rw [hts.length]
      exact h.suffix.length_le
  | stepSlash h hsteps ih ihsteps | stepAnyDepth h hsteps ih ihsteps =>
      have hle := h.suffix.length_le
      simp only [List.length_cons] at hle
      refine parses_step (ih hts hdepth (by simp)) ?_
        (fun hts₂ => ihsteps hts₂ (by omega) hrest) (hts.length ▸ hle)
      simp
  | dot | doubleDot =>
      obtain ⟨ts', hadvance, hts'⟩ := hts.advance
      refine ⟨ts', hts', ?_⟩
      rw [stepParser.eq_def, hts.current?]
      simp only [List.head?_cons, hadvance, ok_bind]
  | step haxis htest hpredicates ih =>
      simp only [List.length_append] at hdepth
      exact parses_writtenStep haxis htest hts fun hts₁ => ih hts₁ (by omega) hrest
  | noPredicate => exact parses_noPredicate hts hrest
  | predicate h hmore ih ihmore =>
      have hle := h.suffix.length_le
      simp only [List.length_cons] at hdepth hle
      obtain ⟨depth, rfl⟩ := Nat.exists_eq_add_of_le' (Nat.le_trans (Nat.succ_pos _) hdepth)
      exact parses_predicate hts (fun hts₁ => (ih hts₁ (by omega) (by simp)).whole (by simp))
        (fun hts₁ => ihmore hts₁ (by omega) hrest) (by omega)
  | plain h ih =>
      exact parses_filter [] (ih hts hdepth (hrest.mono (by simp)))
        fun hts₁ => parses_noPredicate hts₁ hrest
  | @filter _ es _ _ _ h hpredicates hne ih ihpredicates =>
      have hfilter := parses_filter es (ih hts hdepth fun _ _ => Nat.zero_le _) fun hts₁ =>
        ihpredicates hts₁ (Nat.le_trans h.suffix.length_le hdepth) hrest
      rwa [if_neg (by simpa using hne)] at hfilter
  | number | string | reference =>
      obtain ⟨ts', hadvance, hts'⟩ := hts.advance
      refine ⟨ts', hts', ?_⟩
      rw [primary.eq_def, hts.current?]
      simp only [List.head?_cons, hadvance, ok_bind]
  | parenthesised h ih =>
      simp only [List.length_cons] at hdepth
      obtain ⟨depth, rfl⟩ := Nat.exists_eq_add_of_le' (Nat.le_trans (Nat.succ_pos _) hdepth)
      exact parses_parenthesised hts
        fun hts₁ => (ih hts₁ (by omega) (by simp)).whole (by simp)
  | emptyCall hname =>
      refine parses_functionToken hname hts fun {ts₂} hts₂ => ⟨ts₂, hts₂, ?_⟩
      have hcurrent : ts₂.current? = some .rightParen := hts₂.current?
      rw [arguments, if_pos hcurrent]
  | call hname hargs ih =>
      simp only [List.length_cons] at hdepth
      obtain ⟨depth, rfl⟩ := Nat.exists_eq_add_of_le' (Nat.le_trans (Nat.succ_pos _) hdepth)
      refine parses_functionToken hname hts fun {ts₂} hts₂ => ?_
      refine (ih hts₂ (by omega) (by simp)).arguments ?_
      rw [hts₂.current?]
      exact hargs.head?_ne rfl
  | lastArgument h ih =>
      have hwhole := (ih hts hdepth (hrest.mono (by simp))).whole (hrest.mono (by simp))
      exact parses_lastArgument hwhole (hrest.head?_ne (by simp)) (hts.length ▸ h.suffix.length_le)
  | argument h hmore ih ihmore =>
      have hle := h.suffix.length_le
      simp only [List.length_cons] at hle
      exact parses_argument ((ih hts hdepth (by simp)).whole (by simp))
        (fun hts₂ => ihmore hts₂ (by omega) hrest) (hts.length ▸ hle)

/-! ## Whole texts -/

theorem toList_eq_ok {ts : Tokens} {tokens : List Token} (h : ts.toList = .ok tokens) :
    ts.Holds (tokens.map (·.kind)) := by
  obtain ⟨ahead, stop⟩ := ts
  cases stop with
  | error err => cases h
  | ok place => cases h; exact ⟨rfl, place, rfl⟩

theorem parse_of_derives {text : String} {tokens : List Token} {e : Expr}
    (htokens : (Tokens.ofText text).toList = .ok tokens)
    (h : Derives (.whole e) (tokens.map (·.kind)) []) : parse text = .ok e := by
  have hts := toList_eq_ok htokens
  have hchecked : (Tokens.ofText text).checked = .ok (Tokens.ofText text) :=
    Tokens.checked_eq_ok_iff.mpr ⟨rfl, fun _ => hts.2⟩
  have hdepth := Nat.le_of_eq hts.length.symm
  obtain ⟨ts', hts', hrun⟩ := (parses_of_derives h hts hdepth ends_nil).whole ends_nil
  have hend : ts'.current? = none := hts'.current?
  rw [parse, hchecked, ok_bind, hrun, ok_bind]
  simp only [hend, Option.isNone_none, if_true]

/-- Tokens are one expression at most: the parser, run on them, can give one answer only. -/
theorem derives_unique {kinds : List TokenKind} {e e' : Expr}
    (h : Derives (.whole e) kinds []) (h' : Derives (.whole e') kinds []) : e = e' := by
  have hts : (⟨kinds.map (⟨·, .start⟩), .ok .start⟩ : Tokens).Holds kinds :=
    ⟨by simp [Tokens.kinds, Function.comp_def], .start, rfl⟩
  have hdepth := Nat.le_of_eq hts.length.symm
  obtain ⟨ts, _, hrun⟩ := (parses_of_derives h hts hdepth ends_nil).whole ends_nil
  obtain ⟨ts', _, hrun'⟩ := (parses_of_derives h' hts hdepth ends_nil).whole ends_nil
  rw [hrun] at hrun'
  cases hrun'
  rfl

/-- The second token fails to be read only where a name is in front, and whatever the name is taken
for is left behind first. -/
theorem error_of_atStep {nested : Parser Expr} {ts : Tokens} {err : QueryError}
    (h : atStep ts = .error err) :
    steps nested ts = .error err ∧ filterPath nested ts = .error err := by
  rw [atStep.eq_def] at h
  split at h
  case h_1 hcurrent | h_2 hcurrent =>
    have hadvance : ts.advance = .error err := by
      rw [Tokens.peek] at h
      cases hadvance : ts.advance with
      | error err' => rw [hadvance] at h; cases h; rfl
      | ok ts' => rw [hadvance] at h; cases h
    simp [steps, stepParser, stepAxis, nodeTest, filterPath, filterParser, primary, functionCall,
      hcurrent, hadvance]
  all_goals cases h

/-- The parser reads a text as an expression exactly if all tokens of the text can be read and the
grammar derives the expression from them. Tokens are one expression at most. Where the parser looks
at a token beyond the one in front, it is told what the tokens say, or it meets an error that either
choice would meet. -/
theorem parse_iff_derives :
    (∀ text e, parse text = .ok e ↔ ∃ tokens, (Tokens.ofText text).toList = .ok tokens ∧
      Derives (.whole e) (tokens.map (·.kind)) []) ∧
    (∀ kinds e e', Derives (.whole e) kinds [] → Derives (.whole e') kinds [] → e = e') ∧
    ∀ ts, (∀ b, atStep ts = .ok b → b = startsStep ts.kinds) ∧
      ∀ err, atStep ts = .error err →
        ∀ nested, steps nested ts = .error err ∧ filterPath nested ts = .error err := by
  refine ⟨fun text e => ⟨derives_of_parse, ?_⟩, fun kinds e e' => derives_unique, fun ts => ?_⟩
  · rintro ⟨tokens, htokens, h⟩
    exact parse_of_derives htokens h
  · exact ⟨fun b => atStep_eq_ok, fun err h nested => error_of_atStep h⟩

theorem parse_iff_derives_minus :
    (∃ tokens, (Tokens.ofText "-a").toList = .ok tokens ∧
      Derives (.whole (negate (relative [step .child (.name "a") []]))) (tokens.map (·.kind)) [] ∧
        parse "-a" = .ok (negate (relative [step .child (.name "a") []]))) ∧
    ∃ err, atStep (Tokens.ofText "a;") = .error err ∧
      steps (parseNested 0) (Tokens.ofText "a;") = .error err := by
  have hminus : Tokens.ofText "-a" = ⟨[⟨.minus, ⟨1, 1⟩⟩, ⟨.name "a", ⟨1, 2⟩⟩], .ok ⟨1, 3⟩⟩ :=
    Tokens.ext (by decide +kernel) (by decide +kernel)
  have hparse : parse "-a" = .ok (negate (relative [step .child (.name "a") []])) := by
    rw [parse, hminus]
    rfl
  obtain ⟨tokens, htokens, h⟩ := (parse_iff_derives.1 _ _).mp hparse
  refine ⟨⟨tokens, htokens, h, (parse_iff_derives.1 _ _).mpr ⟨tokens, htokens, h⟩⟩, ?_⟩
  have hname : Tokens.ofText "a;" =
      ⟨[⟨.name "a", ⟨1, 1⟩⟩], .error (.parse (.unexpectedCharacter ';') ⟨1, 2⟩)⟩ :=
    Tokens.ext (by decide +kernel) (by decide +kernel)
  have hstep : atStep (Tokens.ofText "a;") =
      .error (.parse (.unexpectedCharacter ';') ⟨1, 2⟩) := by
    rw [hname]
    rfl
  exact ⟨_, hstep, ((parse_iff_derives.2.2 _).2 _ hstep _).1⟩

end TreeQuery.Expr
