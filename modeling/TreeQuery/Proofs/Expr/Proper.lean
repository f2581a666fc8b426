import TreeQuery.Proofs.Expr.Everywhere
import TreeQuery.Proofs.Expr.Grammar
import TreeQuery.Proofs.Expr.Lexed

/-!
What the grammar derives from tokens that can be written: its names and literals can be written
too, its steps stand in paths only, and its paths lead on by steps.
-/
namespace TreeQuery

/-- The names in a node test can be written. -/
def NodeTest.Fitting : NodeTest → Prop
  | name localPart => Expr.IsName localPart
  | qualified pfx localPart => Expr.IsName pfx ∧ Expr.IsName localPart
  | anyIn pfx => Expr.IsName pfx
  | anyNamed localPart => Expr.IsName localPart
  | _ => True

namespace Expr

/-! ## Proper expressions -/

/-- The name of a function, as it stands in front of a parenthesis. -/
def FunctionName (name : String) : Prop :=
  ∃ kind, FunctionToken name kind ∧ kind.Fitting ∧ ∀ text, kind = .name text → text ∉ nodeTypeNames

/-- What an expression itself needs to be read from tokens, its parts left aside. -/
def Proper : Expr → Prop
  | absolute parts => ∀ part ∈ parts, part.isStep = true
  | relative parts => ∃ first rest, parts = first :: rest ∧ (∀ part ∈ rest, part.isStep = true) ∧
      (first.isStep = true ∨ rest ≠ [])
  | step _ test predicates => test.Fitting ∧ ∀ e ∈ predicates, e.isStep = false
  | filter primary predicates =>
      predicates ≠ [] ∧ primary.isStep = false ∧ ∀ e ∈ predicates, e.isStep = false
  | binary _ left right | union left right => left.isStep = false ∧ right.isStep = false
  | negate operand => operand.isStep = false
  | string text => '\"' ∉ text.toList ∨ '\x27' ∉ text.toList
  | number value => ∃ digits places, value = .ofDecimal digits places
  | call name args => FunctionName name ∧ ∀ e ∈ args, e.isStep = false
  | reference name => IsName name

/-- An expression other than a step, proper at every depth. -/
def Whole (e : Expr) : Prop := e.isStep = false ∧ e.Everywhere Proper

/-- A step, proper at every depth. -/
def Part (e : Expr) : Prop := e.isStep = true ∧ e.Everywhere Proper

/-- What is read as a phrase is proper. -/
def Phrase.Proper : Phrase → Prop
  | operation _ e | signed e | union e | path e | value e | primary e => e.Whole
  | steps es => es ≠ [] ∧ ∀ e ∈ es, e.Part
  | step e => e.Part
  | predicates es | arguments es => ∀ e ∈ es, e.Whole

theorem part_anyDepth : anyDepth.Part :=
  ⟨rfl, .intro ⟨trivial, List.forall_mem_nil _⟩ (List.forall_mem_nil _)⟩

theorem whole_relative {first : Expr} {rest : List Expr} (hfirst : first.Everywhere Proper)
    (hrest : ∀ e ∈ rest, e.Part) (h : first.isStep = true ∨ rest ≠ []) :
    (relative (first :: rest)).Whole := by
  refine ⟨rfl, .intro ⟨first, rest, rfl, fun e he => (hrest e he).1, h⟩ ?_⟩
  exact List.forall_mem_cons.mpr ⟨hfirst, fun e he => (hrest e he).2⟩

theorem whole_absolute {parts : List Expr} (h : ∀ e ∈ parts, e.Part) : (absolute parts).Whole :=
  ⟨rfl, .intro (fun e he => (h e he).1) fun e he => (h e he).2⟩

theorem part_step {axis : Axis} {test : NodeTest} {predicates : List Expr} (htest : test.Fitting)
    (h : ∀ e ∈ predicates, e.Whole) : (step axis test predicates).Part :=
  ⟨rfl, .intro ⟨htest, fun e he => (h e he).1⟩ fun e he => (h e he).2⟩

theorem whole_filter {primary : Expr} {predicates : List Expr} (hprimary : primary.Whole)
    (h : ∀ e ∈ predicates, e.Whole) (hne : predicates ≠ []) :
    (filter primary predicates).Whole := by
  refine ⟨rfl, .intro ⟨hne, hprimary.1, fun e he => (h e he).1⟩ ?_⟩
  exact List.forall_mem_cons.mpr ⟨hprimary.2, fun e he => (h e he).2⟩

theorem whole_binary {op : BinaryOp} {left right : Expr} (hleft : left.Whole)
    (hright : right.Whole) : (binary op left right).Whole :=
  ⟨rfl, .intro ⟨hleft.1, hright.1⟩ (by simpa [children] using ⟨hleft.2, hright.2⟩)⟩

theorem whole_union {left right : Expr} (hleft : left.Whole) (hright : right.Whole) :
    (union left right).Whole :=
  ⟨rfl, .intro ⟨hleft.1, hright.1⟩ (by simpa [children] using ⟨hleft.2, hright.2⟩)⟩

theorem whole_negate {operand : Expr} (h : operand.Whole) : (negate operand).Whole :=
  ⟨rfl, .intro h.1 (by simpa [children] using h.2)⟩

theorem whole_call {name : String} {args : List Expr} (hname : FunctionName name)
    (h : ∀ e ∈ args, e.Whole) : (call name args).Whole :=
  ⟨rfl, .intro ⟨hname, fun e he => (h e he).1⟩ fun e he => (h e he).2⟩

theorem TestTokens.fitting {test : NodeTest} {bs : List TokenKind} (h : TestTokens test bs)
    (hbs : ∀ kind ∈ bs, kind.Fitting) : test.Fitting := by
  have hname : ∀ {text}, IsNameOrStar text → text ≠ "*" → IsName text := by
    rintro text (rfl | h) hne
    · exact absurd rfl hne
    · exact h
  cases h with
  | any | anyPrefixed | target => trivial
  | name => exact hbs _ List.mem_cons_self
  | anyNamed hlocal => exact hname (hbs _ List.mem_cons_self).2 hlocal
  | anyIn hpfx => exact hname (hbs _ List.mem_cons_self).1 hpfx
  | qualified hpfx hlocal =>
      exact ⟨hname (hbs _ List.mem_cons_self).1 hpfx, hname (hbs _ List.mem_cons_self).2 hlocal⟩
  | type h =>
      simp only [typeTests, List.mem_cons, Prod.mk.injEq, List.not_mem_nil, or_false] at h
      rcases h with ⟨_, rfl⟩ | ⟨_, rfl⟩ | ⟨_, rfl⟩ | ⟨_, rfl⟩ | ⟨_, rfl⟩ <;> trivial

/-- A name in front of a parenthesis, in tokens that can be written, is that of a function. -/
theorem Written.functionName {name : String} {kind : TokenKind} {rest : List TokenKind}
    (h : Written (kind :: .leftParen :: rest)) (hname : FunctionToken name kind) :
    FunctionName name := by
  refine ⟨kind, hname, h.fitting kind List.mem_cons_self, ?_⟩
  rintro text rfl
  exact h.namesCalls text rest (List.suffix_refl _)

/-- What is derived from tokens that can be written is proper. -/
theorem Derives.proper {p : Phrase} {ts rest : List TokenKind} (h : Derives p ts rest)
    (hts : Written ts) : p.Proper := by
  induction h with
  | @operand level _ _ _ _ ih => cases level <;> exact ih hts
  | @operation level _ _ _ _ _ _ _ hleft _ _ ihleft ihright =>
      have hright := ihright ((hts.suffix hleft.suffix).suffix (List.suffix_cons _ _))
      have hleft := ihleft hts
      cases level <;> exact whole_binary hleft hright
  | unsigned _ ih | member _ ih | valuePath _ ih | plain _ ih => exact ih hts
  | minus _ ih => exact whole_negate (ih (hts.suffix (List.suffix_cons _ _)))
  | union hleft _ ihleft ihright =>
      exact whole_union (ihleft hts)
        (ihright ((hts.suffix hleft.suffix).suffix (List.suffix_cons _ _)))
  | root => exact whole_absolute (List.forall_mem_nil _)
  | absolute _ ih => exact whole_absolute (ih (hts.suffix (List.suffix_cons _ _))).2
  | absoluteAnyDepth _ ih =>
      exact whole_absolute
        (List.forall_mem_cons.mpr ⟨part_anyDepth, (ih (hts.suffix (List.suffix_cons _ _))).2⟩)
  | @relative es _ _ _ ih =>
      obtain ⟨hne, hes⟩ := ih hts
      cases es with
      | nil => exact absurd rfl hne
      | cons first rest =>
          obtain ⟨hfirst, hrest⟩ := List.forall_mem_cons.mp hes
          exact whole_relative hfirst.2 hrest (.inl hfirst.1)
  | valueSteps h _ ih ihsteps =>
      obtain ⟨hne, hes⟩ := ihsteps ((hts.suffix h.suffix).suffix (List.suffix_cons _ _))
      exact whole_relative (ih hts).2 hes (.inr hne)
  | valueAnyDepth h _ ih ihsteps =>
      obtain ⟨hne, hes⟩ := ihsteps ((hts.suffix h.suffix).suffix (List.suffix_cons _ _))
      exact whole_relative (ih hts).2 (List.forall_mem_cons.mpr ⟨part_anyDepth, hes⟩)
        (.inr (List.cons_ne_nil _ _))
  | lastStep _ ih =>
      exact ⟨List.cons_ne_nil _ _, List.forall_mem_cons.mpr ⟨ih hts, List.forall_mem_nil _⟩⟩
  | stepSlash h _ ih ihsteps =>
      obtain ⟨_, hes⟩ := ihsteps ((hts.suffix h.suffix).suffix (List.suffix_cons _ _))
      exact ⟨List.cons_ne_nil _ _, List.forall_mem_cons.mpr ⟨ih hts, hes⟩⟩
  | stepAnyDepth h _ ih ihsteps =>
      obtain ⟨_, hes⟩ := ihsteps ((hts.suffix h.suffix).suffix (List.suffix_cons _ _))
      exact ⟨List.cons_ne_nil _ _,
        List.forall_mem_cons.mpr ⟨ih hts, List.forall_mem_cons.mpr ⟨part_anyDepth, hes⟩⟩⟩
  | dot | doubleDot => exact part_step trivial (List.forall_mem_nil _)
  | @step _ _ _ as bs _ _ haxis htest _ ih =>
      have hmid := hts.suffix (List.suffix_append as _)
      have hbs : ∀ kind ∈ bs, kind.Fitting := fun kind hkind =>
        hmid.fitting kind (List.mem_append_left _ hkind)
      exact part_step (htest.fitting hbs) (ih (hmid.suffix (List.suffix_append bs _)))
  | noPredicate => exact List.forall_mem_nil _
  | predicate h _ ih ihmore =>
      have hts₁ := hts.suffix (List.suffix_cons _ _)
      exact List.forall_mem_cons.mpr
        ⟨ih hts₁, ihmore ((hts₁.suffix h.suffix).suffix (List.suffix_cons _ _))⟩
  | filter h _ hne ih ihpredicates =>
      exact whole_filter (ih hts) (ihpredicates (hts.suffix h.suffix)) hne
  | number | string | reference =>
      exact ⟨rfl, .intro (hts.fitting _ List.mem_cons_self) (List.forall_mem_nil _)⟩
  | parenthesised _ ih => exact ih (hts.suffix (List.suffix_cons _ _))
  | emptyCall hname => exact whole_call (hts.functionName hname) (List.forall_mem_nil _)
  | call hname _ ih =>
      exact whole_call (hts.functionName hname)
        (ih ((hts.suffix (List.suffix_cons _ _)).suffix (List.suffix_cons _ _)))
  | lastArgument _ ih =>
      exact List.forall_mem_cons.mpr ⟨ih hts, List.forall_mem_nil _⟩
  | argument h _ ih ihmore =>
      exact List.forall_mem_cons.mpr
        ⟨ih hts, ihmore ((hts.suffix h.suffix).suffix (List.suffix_cons _ _))⟩

end Expr

end TreeQuery
