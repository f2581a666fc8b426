import TreeQuery.Proofs.Eval.Settings
import TreeQuery.Tree.Builder

/-!
Prefixes and variables stand for what the caller's options give for them and have no other
influence. Queries that differ in prefixes only have the same outcome where the prefixes stand for
the same URIs.
-/
namespace TreeQuery

namespace QueryOptions

/-- A prefix stands for the same URI as another one does in other options, or both for none. -/
def SameUri (options options' : QueryOptions) (p q : String) : Prop :=
  options'.aliases.lookup q = options.aliases.lookup p

/-- A variable has the same value in other options, or in both none. -/
def SameBinding (options options' : QueryOptions) (name : String) : Prop :=
  options'.values.lookup name = options.values.lookup name

/-- The same options with the caller's prefixes changed. -/
def renamed (options : QueryOptions) (f : String → String) : QueryOptions :=
  { options with aliases := options.aliases.map fun (pfx, uri) => (f pfx, uri) }

/-- The same options and more of them. -/
def extended (options : QueryOptions) (aliases : List (String × String))
    (values : List (String × Value)) : QueryOptions :=
  { options with aliases := aliases ++ options.aliases, values := values ++ options.values }

variable {options : QueryOptions}

/-- A renaming keeps what a prefix stands for when it gives the new prefix to no other alias. -/
theorem sameUri_renamed {f : String → String} {p : String}
    (h : ∀ q ∈ options.aliases.map Prod.fst, f q = f p → q = p) :
    options.SameUri (options.renamed f) p (f p) := by
  have hlookup : ∀ aliases : List (String × String),
      (∀ q ∈ aliases.map Prod.fst, f q = f p → q = p) →
        (aliases.map fun (pfx, uri) => (f pfx, uri)).lookup (f p) = aliases.lookup p := by
    intro aliases h
    induction aliases with
    | nil => rfl
    | cons first rest ih =>
        obtain ⟨q, uri⟩ := first
        obtain ⟨hfirst, hrest⟩ := List.forall_mem_cons.mp h
        have hsame : (f p == f q) = (p == q) := by
          rw [Bool.eq_iff_iff, beq_iff_eq, beq_iff_eq]
          exact ⟨fun heq => (hfirst heq.symm).symm, congrArg f⟩
        rw [List.map_cons, List.lookup_cons, List.lookup_cons, hsame, ih hrest]
  exact hlookup options.aliases h

theorem lookup_append_of_not_mem {β : Type} {more : List (String × β)} {name : String}
    (h : name ∉ more.map Prod.fst) (l : List (String × β)) :
    (more ++ l).lookup name = l.lookup name := by
  have hnone : more.lookup name = none := by
    refine List.lookup_eq_none_iff.mpr fun entry hentry => bne_iff_ne.mpr ?_
    rintro rfl
    exact h (List.mem_map_of_mem hentry)
  rw [List.lookup_append, hnone, Option.none_or]

end QueryOptions

/-! ## Tests with other prefixes -/

namespace NodeTest

/-- The prefix that a test is written with. -/
def pfx? : NodeTest → Option String
  | qualified pfx _ | anyIn pfx => some pfx
  | _ => none

/-- The same test with its prefix changed. -/
def renamed (f : String → String) : NodeTest → NodeTest
  | qualified pfx localPart => .qualified (f pfx) localPart
  | anyIn pfx => .anyIn (f pfx)
  | test => test

/-- Two tests differ in the prefix only, and the prefixes are related. -/
inductive Reprefixed (R : String → String → Prop) : NodeTest → NodeTest → Prop where
  | qualified {p q : String} (h : R p q) (localPart : String) :
      Reprefixed R (.qualified p localPart) (.qualified q localPart)
  | anyIn {p q : String} (h : R p q) : Reprefixed R (.anyIn p) (.anyIn q)
  | plain {test : NodeTest} (h : test.pfx? = none) : Reprefixed R test test

theorem reprefixed_renamed {R : String → String → Prop} {f : String → String} {test : NodeTest}
    (h : ∀ p ∈ test.pfx?, R p (f p)) : test.Reprefixed R (test.renamed f) := by
  cases test with
  | qualified p localPart => exact .qualified (h p rfl) localPart
  | anyIn p => exact .anyIn (h p rfl)
  | _ => exact .plain rfl

end NodeTest

namespace ReadyTest

variable {aliases aliases' : List (String × String)}

/-- Without aliases a prefix is compared as text, so both lists have to have some. -/
theorem prefixFits_congr (haliases : aliases ≠ []) (haliases' : aliases' ≠ []) {p q : String}
    (h : aliases'.lookup q = aliases.lookup p) (v : View) :
    prefixFits v aliases' q = prefixFits v aliases p := by
  funext id
  have hempty : aliases.isEmpty = false := List.isEmpty_eq_false_iff.mpr haliases
  have hempty' : aliases'.isEmpty = false := List.isEmpty_eq_false_iff.mpr haliases'
  simp only [prefixFits, hempty, hempty', Bool.false_eq_true, if_false, h]

theorem fits_congr (haliases : aliases ≠ []) (haliases' : aliases' ≠ []) {test test' : NodeTest}
    (h : test.Reprefixed (fun p q => aliases'.lookup q = aliases.lookup p) test') (v : View)
    (axis : Axis) : (test'.ready axis).fits v aliases' = (test.ready axis).fits v aliases := by
  funext id
  cases h with
  | qualified hlookup localPart =>
      simp only [NodeTest.ready, fits, prefixFits_congr haliases haliases' hlookup]
  | anyIn hlookup => simp only [NodeTest.ready, fits, prefixFits_congr haliases haliases' hlookup]
  | plain hnone =>
      cases test with
      | qualified | anyIn => cases hnone
      | instruction target => cases target <;> rfl
      | _ => rfl

end ReadyTest

/-! ## Expressions with other prefixes -/

namespace Expr

/-- The prefix that a step is written with. -/
def pfx? : Expr → Option String
  | step _ test _ => test.pfx?
  | _ => none

/-- The name that a reference to a variable is written with. -/
def referenced? : Expr → Option String
  | reference name => some name
  | _ => none

/-- Two expressions differ in the prefixes of their node tests only, and prefixes in the same place
are related. -/
def Reprefixed (R : String → String → Prop) : Expr → Expr → Prop :=
  Paired (SameForm (fun _ => NodeTest.Reprefixed R) fun _ => True)

mutual

/-- The same expression with all prefixes of node tests changed. -/
def renamed (f : String → String) : Expr → Expr
  | absolute parts => .absolute (renamedEach f parts)
  | relative parts => .relative (renamedEach f parts)
  | step axis test predicates => .step axis (test.renamed f) (renamedEach f predicates)
  | filter primary predicates => .filter (renamed f primary) (renamedEach f predicates)
  | binary op left right => .binary op (renamed f left) (renamed f right)
  | union left right => .union (renamed f left) (renamed f right)
  | negate operand => .negate (renamed f operand)
  | string text => .string text
  | number value => .number value
  | call name args => .call name (renamedEach f args)
  | reference name => .reference name

def renamedEach (f : String → String) : List Expr → List Expr
  | [] => []
  | e :: es => renamed f e :: renamedEach f es

end

theorem renamedEach_eq_map (f : String → String) (es : List Expr) :
    renamedEach f es = es.map (renamed f) := by
  induction es with
  | nil => rfl
  | cons e es ih => rw [renamedEach, ih, List.map_cons]

theorem children_renamed (f : String → String) (e : Expr) :
    (e.renamed f).children = e.children.map (renamed f) := by
  cases e <;> simp [renamed, children, renamedEach_eq_map]

theorem reprefixed_renamed {R : String → String → Prop} {f : String → String} {e : Expr}
    (h : e.Everywhere fun part => ∀ p ∈ part.pfx?, R p (f p)) :
    e.Reprefixed R (e.renamed f) := by
  refine Paired.of_everywhere h (fun part hpart => ?_) (children_renamed f)
  cases part with
  | step axis test predicates => exact .step (NodeTest.reprefixed_renamed hpart) _ _
  | reference name => exact .reference trivial
  | absolute | relative | filter | binary | union | negate | string | number | call => constructor

theorem reprefixed_self {R : String → String → Prop} {e : Expr}
    (h : e.Everywhere fun part => ∀ p ∈ part.pfx?, R p p) : e.Reprefixed R e := by
  refine Paired.of_everywhere (f := id) h (fun part hpart => .refl ?_ fun _ _ => trivial)
    fun part => (List.map_id _).symm
  rintro axis test es rfl
  cases test with
  | qualified p localPart => exact .qualified (hpart p rfl) localPart
  | anyIn p => exact .anyIn (hpart p rfl)
  | _ => exact .plain rfl

end Expr

/-! ## Outcomes -/

/-- Two expressions have the same outcome on every tree and at every focus, each with its options,
and so do their programs. -/
def SameOutcome (e : Expr) (options : QueryOptions) (e' : Expr) (options' : QueryOptions) : Prop :=
  ∀ (v : View) (focus : Focus), e'.eval v options' focus = e.eval v options focus ∧
    e'.compile.run v options' focus = e.compile.run v options focus

section
variable {e e' : Expr} {options options' : QueryOptions}

theorem alike_of_aliases (haliases : options.aliases ≠ []) (haliases' : options'.aliases ≠ [])
    (hrounding : options'.rounding = options.rounding) (v : View) :
    Alike (fun _ => NodeTest.Reprefixed (options.SameUri options'))
      (options.SameBinding options') v v options options' where
  rounding := hrounding
  value name hname := by rw [QueryOptions.value, QueryOptions.value, hname]
  candidates axis test test' htest := by
    funext id
    rw [Selection.candidates, Selection.candidates,
      ReadyTest.fits_congr haliases haliases' htest]
  apply _ _ _ := rfl
  negated _ := rfl
  call _ _ _ := rfl

theorem sameOutcome_of_reprefixed (haliases : options.aliases ≠ [])
    (haliases' : options'.aliases ≠ []) (hrounding : options'.rounding = options.rounding)
    (hprefixes : e.Reprefixed (options.SameUri options') e')
    (hvariables : e.Everywhere fun part => ∀ name ∈ part.referenced?,
      options.SameBinding options' name) :
    SameOutcome e options e' options' := by
  intro v focus
  have hs := alike_of_aliases haliases haliases' hrounding v
  have hpaired : Expr.Paired (Expr.SameForm (fun _ => NodeTest.Reprefixed (options.SameUri options'))
      (options.SameBinding options')) e e' :=
    hprefixes.imp_of_everywhere hvariables fun part part' hform hpart => by
      cases hform with
      | step htest es es' => exact .step htest es es'
      | @reference name _ => exact .reference (hpart name rfl)
      | _ => constructor
  exact ⟨congrFun (Expr.eval_congr hs hpaired) focus,
    congrFun (Expr.sameOps_congr hs hpaired).run focus⟩

theorem sameOutcome_renamed (haliases : options.aliases ≠ []) {f : String → String}
    (h : e.Everywhere fun part => ∀ p ∈ part.pfx?,
      ∀ q ∈ options.aliases.map Prod.fst, f q = f p → q = p) :
    SameOutcome e options (e.renamed f) (options.renamed f) := by
  have haliases' : (options.renamed f).aliases ≠ [] := by
    simpa only [QueryOptions.renamed, ne_eq, List.map_eq_nil_iff] using haliases
  refine sameOutcome_of_reprefixed haliases haliases' rfl ?_ ?_
  · exact Expr.reprefixed_renamed
      (h.imp fun part hpart p hp => QueryOptions.sameUri_renamed (hpart p hp))
  · exact h.imp fun _ _ _ _ => rfl

theorem sameOutcome_extended (haliases : options.aliases ≠ []) {aliases : List (String × String)}
    {values : List (String × Value)}
    (h : e.Everywhere fun part => (∀ p ∈ part.pfx?, p ∉ aliases.map Prod.fst) ∧
      ∀ name ∈ part.referenced?, name ∉ values.map Prod.fst) :
    SameOutcome e options e (options.extended aliases values) := by
  have haliases' : (options.extended aliases values).aliases ≠ [] :=
    List.append_ne_nil_of_right_ne_nil aliases haliases
  refine sameOutcome_of_reprefixed haliases haliases' rfl ?_ ?_
  -- What is in front of the caller's aliases and variables is passed over.
  · exact Expr.reprefixed_self (h.imp fun part hpart p hp =>
      QueryOptions.lookup_append_of_not_mem (hpart.1 p hp) options.aliases)
  · exact h.imp fun part hpart name hname =>
      QueryOptions.lookup_append_of_not_mem (hpart.2 name hname) options.values

end

/-- With aliases, prefixes and variables have no influence but through the URIs and values they
stand for. Expressions that differ in prefixes for the same URIs have the same outcome, and so do
their programs. So it is when all prefixes are renamed, in the expression and in the options, where
no alias takes over the new name of a prefix in use; and when aliases or variables are added that
the expression does not use. -/
theorem outcome_by_uris_and_values (e : Expr) (options : QueryOptions)
    (haliases : options.aliases ≠ []) :
    (∀ e' options', options'.aliases ≠ [] → options'.rounding = options.rounding →
      e.Reprefixed (options.SameUri options') e' →
      e.Everywhere (fun part => ∀ name ∈ part.referenced?, options.SameBinding options' name) →
      SameOutcome e options e' options') ∧
    (∀ f : String → String,
      e.Everywhere (fun part => ∀ p ∈ part.pfx?,
        ∀ q ∈ options.aliases.map Prod.fst, f q = f p → q = p) →
      SameOutcome e options (e.renamed f) (options.renamed f)) ∧
    ∀ aliases values,
      e.Everywhere (fun part => (∀ p ∈ part.pfx?, p ∉ aliases.map Prod.fst) ∧
        ∀ name ∈ part.referenced?, name ∉ values.map Prod.fst) →
      SameOutcome e options e (options.extended aliases values) :=
  ⟨fun _ _ haliases' hrounding hprefixes hvariables =>
      sameOutcome_of_reprefixed haliases haliases' hrounding hprefixes hvariables,
    fun _ h => sameOutcome_renamed haliases h, fun _ _ h => sameOutcome_extended haliases h⟩

/-- The tree has `p:x` and `q:x` below its root, with two URIs. A caller who has `a` and `b` for
these URIs and one who has `b` and `a` ask for the same by `a:x` and `b:x`. -/
theorem outcome_by_uris_and_values_swapped :
    let v := (Document.ofEvents [.start "r" [("xmlns:p", "u"), ("xmlns:q", "w")],
      .empty "p:x" [], .empty "q:x" []]).view
    let options : QueryOptions :=
      { aliases := [("a", "u"), ("b", "w")], values := [("n", .boolean true)] }
    let options' : QueryOptions :=
      { aliases := [("a", "w"), ("b", "u"), ("c", "u")],
        values := [("m", .string ""), ("n", .boolean true)] }
    let e := Expr.step .child (.qualified "a" "x") [.reference "n"]
    let e' := Expr.step .child (.qualified "b" "x") [.reference "n"]
    e.Reprefixed (options.SameUri options') e' ∧
      e'.eval v options' { node := 1 } = .ok (.nodes [4]) ∧
      e'.compile.run v options' { node := 1 } = .ok (.nodes [4]) ∧
      e.eval v options' { node := 1 } = .ok (.nodes [7]) := by
  intro v options options' e e'
  have hreference : Expr.Reprefixed (options.SameUri options') (.reference "n") (.reference "n") :=
    .intro (.reference trivial) .nil
  have huri : options.SameUri options' "a" "b" := rfl
  have hprefixes : e.Reprefixed (options.SameUri options') e' :=
    .intro (.step (.qualified huri "x") _ _) (.cons hreference .nil)
  have hvalue : options.SameBinding options' "n" := rfl
  have hvariables : e.Everywhere fun part => ∀ name ∈ part.referenced?,
      options.SameBinding options' name :=
    .intro (by simp [e, Expr.referenced?]) (List.forall_mem_singleton.mpr
      (.intro (by simpa [Expr.referenced?] using hvalue) (by simp [Expr.children])))
  have hsame := (outcome_by_uris_and_values e options (by simp [options])).1 e' options'
    (by simp [options']) rfl hprefixes hvariables v { node := 1 }
  have heval : e.eval v options { node := 1 } = .ok (.nodes [4]) := by
    simp only [e, v, options]
    decide +kernel
  have hrun : e.compile.run v options { node := 1 } = .ok (.nodes [4]) := by
    simp only [e, v, options]
    decide +kernel
  have hother : e.eval v options' { node := 1 } = .ok (.nodes [7]) := by
    simp only [e, v, options']
    decide +kernel
  exact ⟨hprefixes, hsame.1.trans heval, hsame.2.trans hrun, hother⟩

end TreeQuery
