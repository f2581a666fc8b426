import TreeQuery.Proofs.Expr.Grammar
import TreeQuery.Proofs.Expr.Lexed
import TreeQuery.Proofs.Outcome

/-!
What the parser reads is derived by the grammar. Each parser takes its tokens from the head of the
list, and a parser that succeeds has met no error in the tokens up to the one in front of it.
-/
namespace TreeQuery.Expr

open TreeQuery.Text (Place)

/-! ## Tokens and their kinds -/

namespace Tokens

/-- Tokens that end in a given way, with no error at their head, and that can be written. -/
structure Lexed (stop : Except QueryError Place) (ts : Tokens) : Prop where
  stop_eq : ts.stop = stop
  stops : ts.kinds = [] → ∃ place, stop = .ok place
  fitting : ∀ kind ∈ ts.kinds, kind.Fitting

theorem current?_eq (ts : Tokens) : ts.current? = ts.kinds.head? := by
  rw [current?, kinds, List.head?_map]

theorem kinds_of_current? {ts : Tokens} {kind : TokenKind} (h : ts.current? = some kind) :
    ts.kinds = kind :: ts.kinds.tail := by
  rw [current?_eq] at h
  obtain ⟨rest, hkinds⟩ := List.head?_eq_some_iff.mp h
  rw [hkinds, List.tail_cons]

theorem checked_eq_ok_iff {ts ts' : Tokens} :
    ts.checked = .ok ts' ↔ ts' = ts ∧ (ts.kinds = [] → ∃ place, ts.stop = .ok place) := by
  obtain ⟨ahead, stop⟩ := ts
  cases ahead <;> cases stop <;> simp [checked, kinds, @eq_comm Tokens]

section
variable {stop : Except QueryError Place} {ts ts' : Tokens} {kind : TokenKind}

theorem Lexed.advance (hts : Lexed stop ts) (hkind : ts.current? = some kind)
    (h : ts.advance = .ok ts') : ts.kinds = kind :: ts'.kinds ∧ Lexed stop ts' := by
  obtain ⟨rfl, hstops⟩ := checked_eq_ok_iff.mp h
  have htail : ({ ts with ahead := ts.ahead.tail } : Tokens).kinds = ts.kinds.tail := List.map_tail
  refine ⟨htail ▸ kinds_of_current? hkind, hts.stop_eq, fun hnil => ?_, fun kind hkind => ?_⟩
  · exact hts.stop_eq ▸ hstops hnil
  · exact hts.fitting kind (List.mem_of_mem_tail (htail ▸ hkind))

theorem Lexed.expect {what : String} (hts : Lexed stop ts) (h : ts.expect kind what = .ok ts') :
    ts.kinds = kind :: ts'.kinds ∧ Lexed stop ts' := by
  rw [Tokens.expect] at h
  split at h
  · exact hts.advance ‹_› h
  · cases h

theorem peek_eq_ok {next : Option TokenKind} (h : ts.peek = .ok next) :
    next = ts.kinds.tail.head? := by
  rw [peek, Tokens.advance] at h
  cases hchecked : ({ ts with ahead := ts.ahead.tail } : Tokens).checked with
  | error err => rw [hchecked] at h; cases h
  | ok ts' =>
      obtain ⟨rfl, _⟩ := checked_eq_ok_iff.mp hchecked
      rw [hchecked] at h
      cases h
      rw [current?_eq, kinds, kinds, List.map_tail]

end

end Tokens

open Tokens (Lexed)

/-- What a parser reads from the head of its tokens is derived from them as a phrase. -/
def Reads {α : Type} (phrase : α → Phrase) (parser : Parser α) : Prop :=
  ∀ stop ts a ts', Lexed stop ts → parser ts = .ok (a, ts') →
    Derives (phrase a) ts.kinds ts'.kinds ∧ Lexed stop ts'

/-! ## Chains of operands -/

/-- An operator joins what is read so far and one more operand. -/
def Groups (whole part : Expr → Phrase) (join? : TokenKind → Option (Expr → Expr → Expr)) : Prop :=
  ∀ kind join, join? kind = some join → ∀ left right ts mid rest,
    Derives (whole left) ts (kind :: mid) → Derives (part right) mid rest →
      Derives (whole (join left right)) ts rest

section
variable {whole part : Expr → Phrase} {operand : Parser Expr}
  {join? : TokenKind → Option (Expr → Expr → Expr)} {stop : Except QueryError Place}

theorem derives_of_chainFrom (hoperand : Reads part operand) (hjoin : Groups whole part join?)
    {rounds : Nat} {left e : Expr} {start : List TokenKind} {ts ts' : Tokens}
    (hleft : Derives (whole left) start ts.kinds) (hts : Lexed stop ts)
    (h : chainFrom operand join? rounds left ts = .ok (e, ts')) :
    Derives (whole e) start ts'.kinds ∧ Lexed stop ts' := by
  induction rounds generalizing left ts with
  | zero => cases h; exact ⟨hleft, hts⟩
  | succ rounds ih =>
      rw [chainFrom] at h
      split at h
      · cases h; exact ⟨hleft, hts⟩
      · rename_i join hkind
        obtain ⟨kind, hcurrent, hkind⟩ := Option.bind_eq_some_iff.mp hkind
        simp only [bind_eq_ok_iff] at h
        obtain ⟨ts₁, hadvance, ⟨right, ts₂⟩, hright, h⟩ := h
        obtain ⟨hkinds, hts₁⟩ := hts.advance hcurrent hadvance
        obtain ⟨hright, hts₂⟩ := hoperand _ _ _ _ hts₁ hright
        exact ih (hjoin _ _ hkind _ _ _ _ _ (hkinds ▸ hleft) hright) hts₂ h

theorem reads_chain (hfirst : ∀ e ts rest, Derives (part e) ts rest → Derives (whole e) ts rest)
    (hjoin : Groups whole part join?) (hoperand : Reads part operand) :
    Reads whole (chain join? operand) := by
  intro stop ts e ts' hts h
  simp only [chain, bind_eq_ok_iff] at h
  obtain ⟨⟨left, ts₁⟩, hleft, h⟩ := h
  obtain ⟨hleft, hts₁⟩ := hoperand _ _ _ _ hts hleft
  exact derives_of_chainFrom hoperand hjoin (hfirst _ _ _ hleft) hts₁ h

end

/-- The operators of a level, as the parser looks them up. -/
def Level.join? : Level → TokenKind → Option (Expr → Expr → Expr)
  | or => orJoin?
  | and => andJoin?
  | equality => equalityJoin?
  | order => orderJoin?
  | sum => sumJoin?
  | product => productJoin?

theorem Level.join?_eq_some_iff {level : Level} {kind : TokenKind} {join : Expr → Expr → Expr} :
    level.join? kind = some join ↔ ∃ op, (kind, op) ∈ level.operators ∧ binary op = join := by
  cases level <;> cases kind <;>
    simp [join?, operators, orJoin?, andJoin?, equalityJoin?, orderJoin?, sumJoin?, productJoin?]

theorem reads_operation (level : Level) {operand : Parser Expr}
    (h : Reads (fun e => level.operand e) operand) :
    Reads (.operation level) (chain level.join? operand) := by
  refine reads_chain (fun _ _ _ => .operand) ?_ h
  intro kind join hjoin left right ts mid rest hleft hright
  obtain ⟨op, hop, rfl⟩ := Level.join?_eq_some_iff.mp hjoin
  exact .operation hleft hop hright

theorem reads_union {operand : Parser Expr} (h : Reads .path operand) :
    Reads .union (chain unionJoin? operand) := by
  refine reads_chain (fun _ _ _ => .member) ?_ h
  intro kind join hjoin left right ts mid rest hleft hright
  cases kind <;> cases hjoin
  exact .union hleft hright

theorem reads_negation {operand : Parser Expr} (h : Reads .union operand) :
    Reads .signed (negation operand) := by
  suffices hfrom : ∀ rounds, Reads .signed (negationFrom operand rounds) from
    fun stop ts => hfrom ts.ahead.length stop ts
  have hunsigned : Reads .signed operand := fun stop ts e ts' hts hrun =>
    let ⟨hread, hts'⟩ := h stop ts e ts' hts hrun
    ⟨.unsigned hread, hts'⟩
  intro rounds
  induction rounds with
  | zero => exact hunsigned
  | succ rounds ih =>
      intro stop ts e ts' hts hrun
      rw [negationFrom] at hrun
      split at hrun
      · simp only [bind_eq_ok_iff] at hrun
        obtain ⟨ts₁, hadvance, ⟨operand, ts₂⟩, hoperand, hrun⟩ := hrun
        cases hrun
        obtain ⟨hkinds, hts₁⟩ := hts.advance ‹_› hadvance
        obtain ⟨hoperand, hts'⟩ := ih _ _ _ _ hts₁ hoperand
        exact ⟨hkinds ▸ .minus hoperand, hts'⟩
      · exact hunsigned _ _ _ _ hts hrun

/-! ## Predicates and arguments -/

section
variable {nested : Parser Expr} (h : Reads .whole nested)
include h

theorem reads_predicates : Reads .predicates (predicates nested) := by
  suffices hfrom : ∀ rounds, Reads .predicates (predicatesFrom nested rounds) from
    fun stop ts => hfrom ts.ahead.length stop ts
  intro rounds
  induction rounds with
  | zero => intro stop ts es ts' hts hrun; cases hrun; exact ⟨.noPredicate, hts⟩
  | succ rounds ih =>
      intro stop ts es ts' hts hrun
      rw [predicatesFrom] at hrun
      split at hrun
      · simp only [predicate, bind_eq_ok_iff] at hrun
        obtain ⟨⟨e, ts₃⟩, ⟨ts₁, hadvance, ⟨_, ts₂⟩, he, _, hexpect, heq⟩, ⟨es', _⟩, hes, hrun⟩ :=
          hrun
        cases heq
        cases hrun
        obtain ⟨hkinds, hts₁⟩ := hts.advance ‹_› hadvance
        obtain ⟨he, hts₂⟩ := h _ _ _ _ hts₁ he
        obtain ⟨hkinds₂, hts₃⟩ := hts₂.expect hexpect
        obtain ⟨hes, hts'⟩ := ih _ _ _ _ hts₃ hes
        exact ⟨hkinds ▸ .predicate (hkinds₂ ▸ he) hes, hts'⟩
      · cases hrun; exact ⟨.noPredicate, hts⟩

theorem derives_of_argumentsFrom {stop : Except QueryError Place} {rounds : Nat} {e : Expr}
    {es : List Expr} {start : List TokenKind} {ts ts' : Tokens}
    (he : Derives (.whole e) start ts.kinds) (hts : Lexed stop ts)
    (hrun : argumentsFrom nested rounds ts = .ok (es, ts')) :
    Derives (.arguments (e :: es)) start ts'.kinds ∧ Lexed stop ts' := by
  induction rounds generalizing e es start ts with
  | zero => cases hrun; exact ⟨.lastArgument he, hts⟩
  | succ rounds ih =>
      rw [argumentsFrom] at hrun
      split at hrun
      · simp only [bind_eq_ok_iff] at hrun
        obtain ⟨ts₁, hadvance, ⟨e', ts₂⟩, he', ⟨es', ts₃⟩, hes, hrun⟩ := hrun
        cases hrun
        obtain ⟨hkinds, hts₁⟩ := hts.advance ‹_› hadvance
        obtain ⟨he', hts₂⟩ := h _ _ _ _ hts₁ he'
        obtain ⟨hes, hts'⟩ := ih he' hts₂ hes
        exact ⟨.argument (hkinds ▸ he) hes, hts'⟩
      · cases hrun; exact ⟨.lastArgument he, hts⟩

/-- A call, from behind the name of the function and its left parenthesis. -/
theorem derives_of_functionCall {stop : Except QueryError Place} {name : String}
    {kind : TokenKind} {e : Expr} {ts ts' : Tokens} (hname : FunctionToken name kind)
    (hcurrent : ts.current? = some kind) (hts : Lexed stop ts)
    (hrun : functionCall nested name ts = .ok (e, ts')) :
    Derives (.primary e) ts.kinds ts'.kinds ∧ Lexed stop ts' := by
  simp only [functionCall, bind_eq_ok_iff] at hrun
  obtain ⟨ts₁, hadvance, ts₂, hopen, ⟨args, ts₃⟩, hargs, ts₄, hclose, hrun⟩ := hrun
  cases hrun
  obtain ⟨hkinds, hts₁⟩ := hts.advance hcurrent hadvance
  obtain ⟨hkinds₁, hts₂⟩ := hts₁.expect hopen
  rw [hkinds, hkinds₁]
  rw [arguments] at hargs
  split at hargs
  · cases hargs
    obtain ⟨hkinds₂, hts'⟩ := hts₂.expect hclose
    exact ⟨hkinds₂ ▸ .emptyCall hname, hts'⟩
  · simp only [bind_eq_ok_iff] at hargs
    obtain ⟨⟨arg, ts₅⟩, harg, ⟨more, ts₆⟩, hmore, hargs⟩ := hargs
    cases hargs
    obtain ⟨harg, hts₅⟩ := h _ _ _ _ hts₂ harg
    obtain ⟨hargs, hts₃⟩ := derives_of_argumentsFrom h harg hts₅ hmore
    obtain ⟨hkinds₃, hts'⟩ := hts₃.expect hclose
    exact ⟨.call hname (hkinds₃ ▸ hargs), hts'⟩

end

/-! ## Steps and paths -/

section
variable {stop : Except QueryError Place} {ts ts' : Tokens}

theorem axisTokens_of_stepAxis {axis : Axis} (hts : Lexed stop ts)
    (h : stepAxis ts = .ok (axis, ts')) :
    ∃ as, AxisTokens axis as ∧ ts.kinds = as ++ ts'.kinds ∧ Lexed stop ts' := by
  rw [stepAxis.eq_def] at h
  split at h
  · simp only [bind_eq_ok_iff] at h
    obtain ⟨ts₁, hadvance, h⟩ := h
    cases h
    obtain ⟨hkinds, hts'⟩ := hts.advance ‹_› hadvance
    exact ⟨_, .attributes, hkinds, hts'⟩
  · rename_i text hcurrent
    split at h
    · cases h
    · rename_i found hname
      simp only [bind_eq_ok_iff] at h
      obtain ⟨ts₁, hadvance, ts₂, hexpect, h⟩ := h
      cases h
      obtain ⟨hkinds, hts₁⟩ := hts.advance hcurrent hadvance
      obtain ⟨hkinds₁, hts'⟩ := hts₁.expect hexpect
      obtain rfl : axis.name = text := by simpa using List.find?_some hname
      exact ⟨_, .named axis, by rw [hkinds, hkinds₁]; rfl, hts'⟩
  · cases h
    exact ⟨_, .child, rfl, hts⟩

theorem testTokens_prefixedTest (pfx localPart : String) :
    TestTokens (prefixedTest pfx localPart) [.nameTest pfx localPart] := by
  unfold prefixedTest
  split
  · split
    · subst pfx localPart; exact .anyPrefixed
    · subst pfx; exact .anyNamed ‹_›
  · split
    · subst localPart; exact .anyIn ‹_›
    · exact .qualified ‹_› ‹_›

/-- The parentheses behind the name of a test, empty or with the target of an instruction. -/
theorem testTokens_of_typeTarget {text : String} {target : Option String}
    (htext : text ∈ nodeTypeNames) (hts : Lexed stop ts)
    (h : typeTarget text ts = .ok (target, ts')) :
    ∃ bs, TestTokens (typeTest text target) (.nodeType text :: bs) ∧ ts.kinds = bs ++ ts'.kinds ∧
      Lexed stop ts' := by
  have hempty : TestTokens (typeTest text none) [.nodeType text, .leftParen, .rightParen] := by
    refine .type ?_
    simp only [nodeTypeNames, List.mem_cons, List.not_mem_nil, or_false] at htext
    rcases htext with rfl | rfl | rfl | rfl | rfl <;> decide
  simp only [typeTarget, bind_eq_ok_iff] at h
  obtain ⟨ts₁, hopen, h⟩ := h
  obtain ⟨hkinds, hts₁⟩ := hts.expect hopen
  have hclosed : ∀ {ts₂}, ts₁.expect .rightParen "')'" = .ok ts₂ →
      ts.kinds = [.leftParen, .rightParen] ++ ts₂.kinds ∧ Lexed stop ts₂ := fun hclose =>
    let ⟨hkinds₁, hts₂⟩ := hts₁.expect hclose
    ⟨by rw [hkinds, hkinds₁]; rfl, hts₂⟩
  split at h
  · rename_i name hcurrent
    split at h
    · simp only [bind_eq_ok_iff] at h
      obtain ⟨ts₂, hadvance, ts₃, hclose, h⟩ := h
      cases h
      subst text
      obtain ⟨hkinds₁, hts₂⟩ := hts₁.advance hcurrent hadvance
      obtain ⟨hkinds₂, hts'⟩ := hts₂.expect hclose
      exact ⟨_, .target name, by rw [hkinds, hkinds₁, hkinds₂]; rfl, hts'⟩
    · simp only [bind_eq_ok_iff] at h
      obtain ⟨ts₂, hclose, h⟩ := h
      cases h
      exact ⟨_, hempty, hclosed hclose⟩
  · simp only [bind_eq_ok_iff] at h
    obtain ⟨ts₂, hclose, h⟩ := h
    cases h
    exact ⟨_, hempty, hclosed hclose⟩

theorem testTokens_of_nodeTest {test : NodeTest} (hts : Lexed stop ts)
    (h : nodeTest ts = .ok (test, ts')) :
    ∃ bs, TestTokens test bs ∧ ts.kinds = bs ++ ts'.kinds ∧ Lexed stop ts' := by
  rw [nodeTest.eq_def] at h
  split at h
  case h_4 text hcurrent =>
    simp only [bind_eq_ok_iff] at h
    obtain ⟨ts₁, hadvance, ⟨target, ts₂⟩, htarget, h⟩ := h
    cases h
    have htext : text ∈ nodeTypeNames :=
      hts.fitting (.nodeType text) (Tokens.kinds_of_current? hcurrent ▸ List.mem_cons_self)
    obtain ⟨hkinds, hts₁⟩ := hts.advance hcurrent hadvance
    obtain ⟨bs, htest, hkinds₁, hts'⟩ := testTokens_of_typeTarget htext hts₁ htarget
    exact ⟨_, htest, by rw [hkinds, hkinds₁]; rfl, hts'⟩
  case h_5 => cases h
  all_goals
    simp only [bind_eq_ok_iff] at h
    obtain ⟨ts₁, hadvance, h⟩ := h
    cases h
    obtain ⟨hkinds, hts'⟩ := hts.advance ‹_› hadvance
  · exact ⟨_, .any, hkinds, hts'⟩
  · exact ⟨_, .name _, hkinds, hts'⟩
  · exact ⟨_, testTokens_prefixedTest _ _, hkinds, hts'⟩

theorem atStep_eq_ok {b : Bool} (h : atStep ts = .ok b) : b = startsStep ts.kinds := by
  rw [atStep.eq_def] at h
  split at h
  case h_9 hname hnameTest hstar hat hdot hdoubleDot haxis htype =>
    cases h
    rw [Tokens.current?_eq] at hname hnameTest hstar hat hdot hdoubleDot haxis htype
    cases hkinds : ts.kinds with
    | nil => rfl
    | cons kind rest =>
        rw [hkinds] at hname hnameTest hstar hat hdot hdoubleDot haxis htype
        cases kind <;> first | rfl | simp_all
  case h_1 _ hcurrent | h_2 _ hcurrent =>
    simp only [bind_eq_ok_iff] at h
    obtain ⟨next, hpeek, h⟩ := h
    cases h
    rw [Tokens.kinds_of_current? hcurrent, Tokens.peek_eq_ok hpeek]
    rfl
  all_goals
    rename_i hcurrent
    cases h
    rw [Tokens.kinds_of_current? hcurrent]
    rfl

end

section
variable {nested : Parser Expr} (h : Reads .whole nested)
include h

theorem reads_stepParser : Reads .step (stepParser nested) := by
  intro stop ts e ts' hts hrun
  rw [stepParser.eq_def] at hrun
  split at hrun
  · simp only [bind_eq_ok_iff] at hrun
    obtain ⟨ts₁, hadvance, hrun⟩ := hrun
    cases hrun
    obtain ⟨hkinds, hts'⟩ := hts.advance ‹_› hadvance
    exact ⟨hkinds ▸ .dot, hts'⟩
  · simp only [bind_eq_ok_iff] at hrun
    obtain ⟨ts₁, hadvance, hrun⟩ := hrun
    cases hrun
    obtain ⟨hkinds, hts'⟩ := hts.advance ‹_› hadvance
    exact ⟨hkinds ▸ .doubleDot, hts'⟩
  · simp only [bind_eq_ok_iff] at hrun
    obtain ⟨⟨axis, ts₁⟩, haxis, ⟨test, ts₂⟩, htest, ⟨es, ts₃⟩, hes, hrun⟩ := hrun
    cases hrun
    obtain ⟨as, haxis, hkinds, hts₁⟩ := axisTokens_of_stepAxis hts haxis
    obtain ⟨bs, htest, hkinds₁, hts₂⟩ := testTokens_of_nodeTest hts₁ htest
    obtain ⟨hes, hts'⟩ := reads_predicates h _ _ _ _ hts₂ hes
    rw [hkinds, hkinds₁]
    exact ⟨.step haxis htest hes, hts'⟩

theorem derives_of_stepsFrom {stop : Except QueryError Place} {rounds : Nat} {e : Expr}
    {es : List Expr} {start : List TokenKind} {ts ts' : Tokens}
    (he : Derives (.step e) start ts.kinds) (hts : Lexed stop ts)
    (hrun : stepsFrom nested rounds ts = .ok (es, ts')) :
    Derives (.steps (e :: es)) start ts'.kinds ∧ Lexed stop ts' := by
  induction rounds generalizing e es start ts with
  | zero => cases hrun; exact ⟨.lastStep he, hts⟩
  | succ rounds ih =>
      rw [stepsFrom] at hrun
      split at hrun
      · simp only [bind_eq_ok_iff] at hrun
        obtain ⟨ts₁, hadvance, ⟨e', ts₂⟩, he', ⟨es', ts₃⟩, hes, hrun⟩ := hrun
        cases hrun
        obtain ⟨hkinds, hts₁⟩ := hts.advance ‹_› hadvance
        obtain ⟨he', hts₂⟩ := reads_stepParser h _ _ _ _ hts₁ he'
        obtain ⟨hes, hts'⟩ := ih he' hts₂ hes
        exact ⟨.stepSlash (hkinds ▸ he) hes, hts'⟩
      · simp only [bind_eq_ok_iff] at hrun
        obtain ⟨ts₁, hadvance, ⟨e', ts₂⟩, he', ⟨es', ts₃⟩, hes, hrun⟩ := hrun
        cases hrun
        obtain ⟨hkinds, hts₁⟩ := hts.advance ‹_› hadvance
        obtain ⟨he', hts₂⟩ := reads_stepParser h _ _ _ _ hts₁ he'
        obtain ⟨hes, hts'⟩ := ih he' hts₂ hes
        exact ⟨.stepAnyDepth (hkinds ▸ he) hes, hts'⟩
      · cases hrun; exact ⟨.lastStep he, hts⟩

theorem reads_steps : Reads .steps (steps nested) := by
  intro stop ts es ts' hts hrun
  simp only [steps, bind_eq_ok_iff] at hrun
  obtain ⟨⟨e, ts₁⟩, he, ⟨es', ts₂⟩, hes, hrun⟩ := hrun
  cases hrun
  obtain ⟨he, hts₁⟩ := reads_stepParser h _ _ _ _ hts he
  exact derives_of_stepsFrom h he hts₁ hes

theorem reads_primary : Reads .primary (primary nested) := by
  intro stop ts e ts' hts hrun
  rw [primary.eq_def] at hrun
  split at hrun
  case h_4 hcurrent =>
    simp only [bind_eq_ok_iff] at hrun
    obtain ⟨ts₁, hadvance, ⟨e', ts₂⟩, he, ts₃, hclose, hrun⟩ := hrun
    cases hrun
    obtain ⟨hkinds, hts₁⟩ := hts.advance hcurrent hadvance
    obtain ⟨he, hts₂⟩ := h _ _ _ _ hts₁ he
    obtain ⟨hkinds₂, hts'⟩ := hts₂.expect hclose
    exact ⟨hkinds ▸ .parenthesised (hkinds₂ ▸ he), hts'⟩
  case h_5 text hcurrent => exact derives_of_functionCall h (.name text) hcurrent hts hrun
  case h_6 pfx localPart hcurrent =>
    exact derives_of_functionCall h (.prefixed pfx localPart) hcurrent hts hrun
  case h_7 => cases hrun
  all_goals
    simp only [bind_eq_ok_iff] at hrun
    obtain ⟨ts₁, hadvance, hrun⟩ := hrun
    cases hrun
    obtain ⟨hkinds, hts'⟩ := hts.advance ‹_› hadvance
    rw [hkinds]
  · exact ⟨.number, hts'⟩
  · exact ⟨.string, hts'⟩
  · exact ⟨.reference, hts'⟩

theorem reads_filterParser : Reads .value (filterParser nested) := by
  intro stop ts e ts' hts hrun
  simp only [filterParser, bind_eq_ok_iff] at hrun
  obtain ⟨⟨e', ts₁⟩, he, ⟨es, ts₂⟩, hes, hrun⟩ := hrun
  cases hrun
  obtain ⟨he, hts₁⟩ := reads_primary h _ _ _ _ hts he
  obtain ⟨hes, hts'⟩ := reads_predicates h _ _ _ _ hts₁ hes
  refine ⟨?_, hts'⟩
  cases es with
  | nil => exact .plain (hes.of_noPredicate ▸ he)
  | cons e'' es => exact .filter he hes (List.cons_ne_nil _ _)

theorem reads_filterPath : Reads .path (filterPath nested) := by
  intro stop ts e ts' hts hrun
  simp only [filterPath, bind_eq_ok_iff] at hrun
  obtain ⟨⟨e', ts₁⟩, he, hrun⟩ := hrun
  obtain ⟨he, hts₁⟩ := reads_filterParser h _ _ _ _ hts he
  split at hrun
  · simp only [bind_eq_ok_iff] at hrun
    obtain ⟨ts₂, hadvance, ⟨es, ts₃⟩, hes, hrun⟩ := hrun
    cases hrun
    obtain ⟨hkinds, hts₂⟩ := hts₁.advance ‹_› hadvance
    obtain ⟨hes, hts'⟩ := reads_steps h _ _ _ _ hts₂ hes
    exact ⟨.valueSteps (hkinds ▸ he) hes, hts'⟩
  · simp only [bind_eq_ok_iff] at hrun
    obtain ⟨ts₂, hadvance, ⟨es, ts₃⟩, hes, hrun⟩ := hrun
    cases hrun
    obtain ⟨hkinds, hts₂⟩ := hts₁.advance ‹_› hadvance
    obtain ⟨hes, hts'⟩ := reads_steps h _ _ _ _ hts₂ hes
    exact ⟨.valueAnyDepth (hkinds ▸ he) hes, hts'⟩
  · cases hrun; exact ⟨.valuePath he, hts₁⟩

theorem reads_path : Reads .path (path nested) := by
  intro stop ts e ts' hts hrun
  rw [path.eq_def] at hrun
  split at hrun
  · simp only [absoluteTail, bind_eq_ok_iff] at hrun
    obtain ⟨ts₁, hadvance, atStep, hatStep, hrun⟩ := hrun
    obtain ⟨hkinds, hts₁⟩ := hts.advance ‹_› hadvance
    rw [hkinds]
    obtain rfl := atStep_eq_ok hatStep
    split at hrun
    · simp only [bind_eq_ok_iff] at hrun
      obtain ⟨⟨es, ts₂⟩, hes, hrun⟩ := hrun
      cases hrun
      obtain ⟨hes, hts'⟩ := reads_steps h _ _ _ _ hts₁ hes
      exact ⟨.absolute hes, hts'⟩
    · cases hrun
      exact ⟨.root (Bool.eq_false_iff.mpr ‹_›), hts₁⟩
  · simp only [bind_eq_ok_iff] at hrun
    obtain ⟨ts₁, hadvance, ⟨es, ts₂⟩, hes, hrun⟩ := hrun
    cases hrun
    obtain ⟨hkinds, hts₁⟩ := hts.advance ‹_› hadvance
    obtain ⟨hes, hts'⟩ := reads_steps h _ _ _ _ hts₁ hes
    exact ⟨hkinds ▸ .absoluteAnyDepth hes, hts'⟩
  · simp only [bind_eq_ok_iff] at hrun
    obtain ⟨atStep, _, hrun⟩ := hrun
    split at hrun
    · simp only [bind_eq_ok_iff] at hrun
      obtain ⟨⟨es, ts₁⟩, hes, hrun⟩ := hrun
      cases hrun
      obtain ⟨hes, hts'⟩ := reads_steps h _ _ _ _ hts hes
      exact ⟨.relative hes, hts'⟩
    · exact reads_filterPath h _ _ _ _ hts hrun

/-! ## Whole expressions -/

theorem reads_levels : Reads .whole (levels nested) := by
  have hproduct : Reads (.operation .product) _ := reads_operation .product <| reads_negation <|
    reads_union <| reads_path h
  have horder : Reads (.operation .order) _ := reads_operation .order <|
    reads_operation .sum hproduct
  exact reads_operation .or <| reads_operation .and <|
    reads_operation .equality horder

end

theorem reads_parseNested (depth : Nat) : Reads .whole (parseNested depth) := by
  induction depth with
  | zero => intro stop ts e ts' hts hrun; cases hrun
  | succ depth ih => exact reads_levels ih

/-! ## Whole texts -/

/-- What a text is parsed to is derived from its tokens, all of which can be read. -/
theorem derives_of_parse {text : String} {e : Expr} (h : parse text = .ok e) :
    ∃ tokens, (Tokens.ofText text).toList = .ok tokens ∧
      Derives (.whole e) (tokens.map (·.kind)) [] := by
  simp only [parse, bind_eq_ok_iff] at h
  obtain ⟨ts, hchecked, ⟨e', ts'⟩, he, h⟩ := h
  obtain ⟨rfl, hstops⟩ := Tokens.checked_eq_ok_iff.mp hchecked
  obtain ⟨he, hts'⟩ := reads_parseNested _ _ _ _ _ ⟨rfl, hstops, (Tokens.written_ofText text).fitting⟩ he
  split at h
  · rename_i hend
    cases h
    have hnil : ts'.kinds = [] := by simpa [Tokens.current?_eq] using hend
    obtain ⟨place, hstop⟩ := hts'.stops hnil
    exact ⟨(Tokens.ofText text).ahead, by rw [Tokens.toList, hstop]; rfl, hnil ▸ he⟩
  · cases h

end TreeQuery.Expr
