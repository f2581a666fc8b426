import TreeQuery.Proofs.Eval.Steady
import TreeQuery.Proofs.Program.Agreement

/-!
The kind of an expression can be told without a document, and so can all that may go wrong with it:
a variable without a value, an unknown function, a wrong number of arguments, or a value of another
kind where a node-set is needed.
-/
namespace TreeQuery

/-! ## Kinds -/

/-- The kind of the values of a function. -/
def Function.kind : Function → ValueKind
  | id => .nodeSet
  | boolean | not | trueValue | falseValue | lang | startsWith | contains => .boolean
  | last | position | count | number | sum | floor | ceiling | round | stringLength => .number
  | localName | namespaceUri | name | string | concat | substring | substringBefore
  | substringAfter | normalizeSpace | translate => .string

/-- Whether the first argument of a function has to be a node-set. -/
def Function.takesNodes : Function → Bool
  | count | sum | localName | namespaceUri | name => true
  | _ => false

/-- The kind of the values of an operator. -/
def BinaryOp.kind : BinaryOp → ValueKind
  | or | and | eq | ne | lt | le | gt | ge => .boolean
  | add | sub | mul | div | mod => .number

namespace Expr

/-- The kind of the values of an expression. Only a call of an unknown function and a variable
without a value have none. -/
def kind? (options : QueryOptions) : Expr → Option ValueKind
  | absolute _ | relative _ | step .. | filter .. | union .. => some .nodeSet
  | binary op _ _ => some op.kind
  | negate _ | number _ => some .number
  | string _ => some .string
  | call name _ => (Function.ofTitle? name).map Function.kind
  | reference name => (options.values.lookup name).map Value.kind

/-- The direct parts whose values have to be node-sets. -/
def nodeSetParts : Expr → List Expr
  | relative (first :: _) => [first]
  | filter primary _ => [primary]
  | union left right => [left, right]
  | call name (first :: _) =>
    if (Function.ofTitle? name).any Function.takesNodes then [first] else []
  | _ => []

/-- What is wrong with an expression itself, whatever its parts are. -/
inductive Explains (options : QueryOptions) : Expr → QueryError → Prop where
  | unbound {name : String} (hlookup : options.values.lookup name = none) :
      Explains options (reference name) (.unboundVariable name)
  | unknown {name : String} {args : List Expr} (hname : Function.ofTitle? name = none) :
      Explains options (call name args) (.unsupported (.function name))
  | count {name : String} {f : Function} {args : List Expr}
      (hname : Function.ofTitle? name = some f) (hcount : f.arity.admits args.length = false) :
      Explains options (call name args) (.argumentCount f args.length)
  | kind {e part : Expr} {k : ValueKind} (hpart : part ∈ e.nodeSetParts)
      (hkind : part.kind? options = some k) (hother : k ≠ .nodeSet) :
      Explains options e (.notANodeSet k)

/-- An expression is a part of another one at some depth, or the other one itself. -/
inductive Within : Expr → Expr → Prop where
  | here {e : Expr} : Within e e
  | inside {inner part e : Expr} (hinner : Within inner part) (hpart : part ∈ e.children) :
      Within inner e

/-- Something is wrong with the expression or a part of it. -/
def Explained (options : QueryOptions) (e : Expr) (err : QueryError) : Prop :=
  ∃ part, Within part e ∧ Explains options part err

variable {options : QueryOptions} {e part : Expr} {err : QueryError}

theorem Explains.explained (h : Explains options e err) : Explained options e err := ⟨e, .here, h⟩

theorem Explained.inside (h : Explained options part err) (hpart : part ∈ e.children) :
    Explained options e err := by
  obtain ⟨inner, hinner, hexplains⟩ := h
  exact ⟨inner, .inside hinner hpart, hexplains⟩

end Expr

/-! ## Selecting -/

namespace Selection

variable {v : View} {options : QueryOptions} {rounding : Rounding} {condition : Condition}
  {conditions : List Condition} {bad : QueryError → Prop}

theorem failsBy_keepFrom (h : ∀ focus, FailsBy bad (condition focus)) (size position : Nat)
    (ids : List NodeId) : FailsBy bad (keepFrom rounding condition size position ids) := by
  induction ids generalizing position with
  | nil => trivial
  | cons id ids ih => exact (h _).bind fun _ _ => (ih _).bind fun _ _ => trivial

theorem failsBy_keepAll (h : ∀ c ∈ conditions, ∀ focus, FailsBy bad (c focus))
    (ids : List NodeId) : FailsBy bad (keepAll rounding conditions ids) := by
  induction conditions generalizing ids with
  | nil => trivial
  | cons c conditions ih =>
      obtain ⟨hc, hrest⟩ := List.forall_mem_cons.mp h
      rw [keepAll]
      split
      · trivial
      · exact (failsBy_keepFrom hc _ _ _).bind fun _ _ => ih hrest _

theorem failsBy_stepFromEach {axis : Axis} {test : ReadyTest}
    (h : ∀ c ∈ conditions, ∀ focus, FailsBy bad (c focus)) (ids : List NodeId) :
    FailsBy bad (stepFromEach v options axis test conditions ids) := by
  induction ids with
  | nil => trivial
  | cons id ids ih => exact (failsBy_keepAll h _).bind fun _ _ => ih.bind fun _ _ => trivial

theorem failsBy_step {axis : Axis} {test : ReadyTest}
    (h : ∀ c ∈ conditions, ∀ focus, FailsBy bad (c focus)) (ids : List NodeId) :
    FailsBy bad (step v options axis test conditions ids) :=
  (failsBy_stepFromEach h ids).bind fun _ _ => trivial

end Selection

/-! ## Calls -/

namespace Function

variable {v : View} {focus : Focus} {bad : QueryError → Prop} {args : List Value}

theorem length_of_admits {n given : Nat} (h : Arity.admits ⟨n, some n⟩ given = true) :
    given = n := by
  simp only [Arity.admits, Option.all_some, Bool.and_eq_true, decide_eq_true_eq] at h
  omega

theorem meets_aboutTarget {ask : NodeId → Option String}
    (h : ∀ first, args.head? = some first → FailsBy bad first.toNodes) :
    Meets (fun value => .string = value.kind) bad (aboutTarget ask focus args) := by
  have htarget : FailsBy bad (targetNode focus args) := by
    cases args with
    | nil => trivial
    | cons first rest => exact (h first rfl).bind fun _ _ => trivial
  exact htarget.bind fun _ _ => rfl

/-- A function has a value of its kind for every accepted number of arguments, unless it takes
nodes and there are none to take. -/
theorem meets_apply (f : Function) (hcount : f.arity.admits args.length = true)
    (hnodes : f.takesNodes = true → ∀ first, args.head? = some first →
      FailsBy bad first.toNodes) :
    Meets (fun value => f.kind = value.kind) bad (f.apply v focus args) := by
  cases f with
  | last | position | trueValue | falseValue =>
      obtain rfl := List.length_eq_zero_iff.mp (length_of_admits hcount)
      rfl
  | id | boolean | not | lang | floor | ceiling | round =>
      obtain ⟨a, rfl⟩ := List.length_eq_one_iff.mp (length_of_admits hcount)
      rfl
  | count | sum =>
      obtain ⟨a, rfl⟩ := List.length_eq_one_iff.mp (length_of_admits hcount)
      exact (hnodes rfl a rfl).bind fun _ _ => rfl
  | localName | namespaceUri | name => exact meets_aboutTarget (hnodes rfl)
  | string | concat | stringLength | normalizeSpace => rfl
  | startsWith | contains | substringBefore | substringAfter =>
      obtain ⟨a, b, rfl⟩ := List.length_eq_two.mp (length_of_admits hcount)
      rfl
  | translate =>
      obtain ⟨a, b, c, rfl⟩ := List.length_eq_three.mp (length_of_admits hcount)
      rfl
  | number => cases args <;> rfl
  | substring =>
      match args with
      | [] | [_] => simp [arity, Arity.admits] at hcount
      | [a, b] | [a, b, c] => rfl
      | _ :: _ :: _ :: _ :: _ =>
          simp only [arity, Arity.admits, List.length_cons, Option.all_some, Bool.and_eq_true,
            decide_eq_true_eq] at hcount
          omega

end Function

/-! ## Expressions -/

namespace Expr

variable {v : View} {options : QueryOptions} {e part : Expr} {bad : QueryError → Prop}

/-- At every focus a value is of the kind of the expression, and a failure is explained by it. -/
def Accounted (v : View) (options : QueryOptions) (e : Expr) : Prop :=
  ∀ focus, Meets (fun value => e.kind? options = some value.kind) (Explained options e)
    (e.eval v options focus)

theorem Accounted.asPart (h : part.Accounted v options) (hpart : part ∈ e.children)
    (focus : Focus) :
    Meets (fun value => part.kind? options = some value.kind) (Explained options e)
      (part.eval v options focus) :=
  (h focus).mono fun _ hexplained => hexplained.inside hpart

theorem Accounted.asInner {inner : Expr} (h : inner.Accounted v options)
    (hinner : inner ∈ part.children) (hpart : part ∈ e.children) (focus : Focus) :
    FailsBy (Explained options e) (inner.eval v options focus) :=
  ((h.asPart hinner focus).mono fun _ hexplained => hexplained.inside hpart).failsBy

theorem failsBy_toNodes {value : Value} (hpart : part ∈ e.nodeSetParts)
    (hkind : part.kind? options = some value.kind) :
    FailsBy (Explained options e) value.toNodes := by
  cases value with
  | nodes ids => trivial
  | boolean | number | string => exact (Explains.kind hpart hkind (by simp [Value.kind])).explained

theorem failsBy_conditions {es : List Expr}
    (h : ∀ e ∈ es, ∀ focus, FailsBy bad (e.eval v options focus)) :
    ∀ c ∈ conditions v options es, ∀ focus, FailsBy bad (c focus) := by
  rw [conditions_eq_map]
  exact List.forall_mem_map.mpr h

theorem failsBy_evalSteps {parts : List Expr} (hsteps : ∀ part ∈ parts, part.isStep)
    (h : ∀ part ∈ parts, ∀ inner ∈ part.children, ∀ focus,
      FailsBy bad (inner.eval v options focus)) (ids : List NodeId) :
    FailsBy bad (evalSteps v options parts ids) := by
  induction parts generalizing ids with
  | nil => trivial
  | cons part parts ih =>
      obtain ⟨hstep, hrest⟩ := List.forall_mem_cons.mp hsteps
      obtain ⟨hpart, hparts⟩ := List.forall_mem_cons.mp h
      cases part with
      | step axis test predicates =>
          rw [evalSteps_cons]
          exact (Selection.failsBy_step (failsBy_conditions hpart) ids).bind
            fun _ _ => ih hrest hparts _
      | _ => cases hstep

/-- The values of arguments are of the kinds of the arguments. -/
theorem meets_evalArgs {args : List Expr} {focus : Focus}
    (h : ∀ arg ∈ args, Meets (fun value => arg.kind? options = some value.kind) bad
      (arg.eval v options focus)) :
    Meets (List.Forall₂ (fun arg value => arg.kind? options = some value.kind) args) bad
      (evalArgs v options args focus) := by
  induction args with
  | nil => exact .nil
  | cons arg args ih =>
      obtain ⟨harg, hargs⟩ := List.forall_mem_cons.mp h
      exact harg.bind fun _ hvalue => (ih hargs).bind fun _ hvalues => .cons hvalue hvalues

theorem accounted_relative {parts : List Expr} (hpath : LeadsBySteps (relative parts))
    (hparts : ∀ part ∈ parts, part.Accounted v options)
    (hinner : ∀ part ∈ parts, ∀ inner ∈ part.children, inner.Accounted v options) :
    (relative parts).Accounted v options := by
  intro focus
  cases parts with
  | nil => rfl
  | cons first rest =>
      have hsteps : ∀ ids, FailsBy (Explained options (relative (first :: rest)))
          (evalSteps v options rest ids) := by
        refine failsBy_evalSteps hpath.tail fun part hpart inner hmem => ?_
        have hpart : part ∈ first :: rest := List.mem_cons_of_mem first hpart
        exact (hinner part hpart inner hmem).asInner hmem hpart
      have hpathNodes : FailsBy (Explained options (relative (first :: rest)))
          (evalPath v options (first :: rest) focus) :=
        ((hparts first (by simp)).asPart (by simp [children]) focus).bind fun value hkind =>
          (failsBy_toNodes (by simp [nodeSetParts]) hkind).bind fun ids _ => hsteps ids
      exact hpathNodes.bind fun _ _ => rfl

theorem accounted_filter {primary : Expr} {predicates : List Expr}
    (hprimary : primary.Accounted v options) (h : ∀ e ∈ predicates, e.Accounted v options) :
    (filter primary predicates).Accounted v options := by
  intro focus
  refine (hprimary.asPart (by simp [children]) focus).bind fun value hkind => ?_
  refine (failsBy_toNodes (by simp [nodeSetParts]) hkind).bind fun ids _ => ?_
  refine (Selection.failsBy_keepAll (failsBy_conditions fun e he focus => ?_) ids).bind
    fun _ _ => rfl
  exact ((h e he).asPart (by simp [children, he]) focus).failsBy

theorem accounted_binary (op : BinaryOp) {left right : Expr} (hleft : left.Accounted v options)
    (hright : right.Accounted v options) : (binary op left right).Accounted v options := by
  intro focus
  have hleft := hleft.asPart (e := binary op left right) (by simp [children]) focus
  have hright := hright.asPart (e := binary op left right) (by simp [children]) focus
  rw [eval.eq_def]
  cases op with
  | and =>
      refine hleft.bind fun l _ => ?_
      cases l.toBoolean with
      | false => rfl
      | true => exact hright.bind fun _ _ => rfl
  | or =>
      refine hleft.bind fun l _ => ?_
      cases l.toBoolean with
      | false => exact hright.bind fun _ _ => rfl
      | true => rfl
  | _ => exact hleft.bind fun _ _ => hright.bind fun _ _ => rfl

theorem accounted_union {left right : Expr} (hleft : left.Accounted v options)
    (hright : right.Accounted v options) : (union left right).Accounted v options := by
  intro focus
  refine (hleft.asPart (by simp [children]) focus).bind fun l hl => ?_
  refine (hright.asPart (by simp [children]) focus).bind fun r hr => ?_
  refine (failsBy_toNodes (by simp [nodeSetParts]) hl).bind fun _ _ => ?_
  exact (failsBy_toNodes (by simp [nodeSetParts]) hr).bind fun _ _ => rfl

theorem accounted_call {name : String} {args : List Expr}
    (h : ∀ arg ∈ args, arg.Accounted v options) : (call name args).Accounted v options := by
  intro focus
  rw [eval]
  cases hname : Function.ofTitle? name with
  | none => exact (Explains.unknown hname).explained
  | some f =>
      have hargs : ∀ arg ∈ args, Meets (fun value => arg.kind? options = some value.kind)
          (Explained options (call name args)) (arg.eval v options focus) :=
        fun arg harg => (h arg harg).asPart (e := call name args) harg focus
      refine (meets_evalArgs hargs).bind fun values hvalues => ?_
      rw [Function.call, ← hvalues.length_eq]
      split
      · rename_i hcount
        simp only [kind?, hname, Option.map_some, Option.some.injEq]
        refine f.meets_apply (hvalues.length_eq ▸ hcount) fun hnodes first hfirst => ?_
        cases hvalues with
        | nil => cases hfirst
        | cons hkind _ =>
            obtain rfl := Option.some.inj hfirst
            exact failsBy_toNodes (by simp [nodeSetParts, hname, hnodes]) hkind
      · rename_i hcount
        exact (Explains.count hname (by simpa using hcount)).explained

/-- Steps are the only parts of which the parts are evaluated for the whole. -/
theorem accounted_of_wellFormed (h : e.WellFormed) : e.Accounted v options := by
  refine Everywhere.induction_deep (P := LeadsBySteps) (fun e he hparts hinner => ?_) h
  have hpath : LeadsBySteps e := (everywhere_iff.mp he).1
  cases e with
  | absolute parts =>
      refine fun focus => (failsBy_evalSteps hpath (fun part hpart inner hmem => ?_) _).bind
        fun _ _ => rfl
      exact (hinner part hpart inner hmem).asInner hmem hpart
  | relative parts => exact accounted_relative hpath hparts hinner
  | step axis test predicates =>
      refine fun focus => (Selection.failsBy_step (failsBy_conditions fun e he focus => ?_) _).bind
        fun _ _ => rfl
      exact ((hparts e he).asPart (e := step axis test predicates) he focus).failsBy
  | filter primary predicates =>
      exact accounted_filter (hparts primary (by simp [children]))
        fun e he => hparts e (by simp [children, he])
  | binary op left right =>
      exact accounted_binary op (hparts left (by simp [children]))
        (hparts right (by simp [children]))
  | union left right =>
      exact accounted_union (hparts left (by simp [children])) (hparts right (by simp [children]))
  | negate operand =>
      exact fun focus => ((hparts operand (by simp [children])).asPart (by simp [children])
        focus).bind fun _ _ => rfl
  | string text => exact fun focus => rfl
  | number value => exact fun focus => rfl
  | call name args => exact accounted_call hparts
  | reference name =>
      intro focus
      rw [eval, QueryOptions.value]
      cases hlookup : options.values.lookup name with
      | none => exact (Explains.unbound hlookup).explained
      | some value => simp [Meets, kind?, hlookup]

end Expr

/-! ## Both ways to run a query -/

/-- An expression whose paths lead on by steps has values of its kind only, and a failure of it is
explained by one of its parts, in either way to run it. What is read from a text leads on so. -/
theorem kind_of_outcome :
    (∀ e : Expr, e.WellFormed → ∀ (v : View) (options : QueryOptions) (focus : Focus),
      ∀ outcome ∈ [e.eval v options focus, e.compile.run v options focus],
        (∃ value, outcome = .ok value ∧ e.kind? options = some value.kind) ∨
          ∃ err, outcome = .error err ∧ e.Explained options err) ∧
    (∀ text e, Expr.parse text = .ok e → e.WellFormed) ∧
    (∀ text e, Selector.parseToExpr text = .ok e → e.WellFormed) := by
  refine ⟨fun e he v options focus outcome houtcome => ?_,
    fun _ _ h => Expr.wellFormed_of_parse h, fun _ _ h => Selector.wellFormed_of_parseToExpr h⟩
  have heval : outcome = e.eval v options focus := by
    rcases List.mem_pair.mp houtcome with rfl | rfl
    · rfl
    · exact (Expr.agrees_of_wellFormed he).run focus
  have haccounted : e.Accounted v options := Expr.accounted_of_wellFormed he
  have hmeets := haccounted focus
  rw [← heval] at hmeets
  cases outcome with
  | ok value => exact .inl ⟨value, rfl, hmeets⟩
  | error err => exact .inr ⟨err, rfl, hmeets⟩

/-- A number is added to a call that takes nodes only. -/
theorem kind_of_outcome_of_count :
    let e := Expr.binary .add (.number Number.one) (.call "count" [.string "a"])
    let v := (Document.ofEvents []).view
    e.WellFormed ∧ e.kind? {} = some .number ∧
      e.eval v {} { node := 0 } = .error (.notANodeSet .string) ∧
        e.Explained {} (.notANodeSet .string) := by
  intro e v
  have he : e.WellFormed := by simp [e]
  have heval : e.eval v {} { node := 0 } = .error (.notANodeSet .string) := rfl
  refine ⟨he, rfl, heval, ?_⟩
  rcases kind_of_outcome.1 e he v {} { node := 0 } _ List.mem_cons_self with
    ⟨value, hvalue, _⟩ | ⟨err, herr, hexplained⟩
  · rw [heval] at hvalue
    cases hvalue
  · rw [heval] at herr
    cases herr
    exact hexplained

end TreeQuery
