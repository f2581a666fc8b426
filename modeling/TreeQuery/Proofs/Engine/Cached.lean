import TreeQuery.Engine.Basic
import TreeQuery.Proofs.Cache.Lookups

/-!
An engine answers as if it had no caches. Whatever was asked before and whatever was forgotten, each
entry of a cache is what its text stands for, and every answer is that of reading, compiling and
evaluating anew. The caches of one language have no part in the answers to the other.
-/
namespace TreeQuery

/-! ## Entries of a cache -/

namespace Cache

variable {α σ : Type}

/-- What stands under a text is what is built from the text. -/
def Holds (c : Cache (Instance α)) (made : String → Except QueryError α) : Prop :=
  ∀ entry ∈ c.entries, made entry.1 = .ok entry.2.value

variable {c : Cache (Instance α)} {made : String → Except QueryError α} {key : String}
  {value : Instance α}

theorem Holds.touch (h : c.Holds made) (hvalue : made key = .ok value.value) :
    (c.touch key value).Holds made := by
  intro entry hentry
  rcases List.mem_cons.mp hentry with rfl | hentry
  · exact hvalue
  · exact h entry (List.mem_filter.mp hentry).1

theorem Holds.trim (h : c.Holds made) : c.trim.Holds made := by
  rw [Cache.trim]
  split
  · exact h
  · exact fun entry hentry => h entry (List.mem_of_mem_take hentry)

theorem Holds.insert (h : c.Holds made) (hvalue : made key = .ok value.value) :
    (c.insert key value).Holds made := (h.touch hvalue).trim

theorem Holds.of_lookup (h : c.Holds made) (hlookup : c.lookup? key = some value) :
    made key = .ok value.value := h (key, value) (mem_of_lookup hlookup)

/-- What comes of the outcome of a build that makes what its text stands for. -/
theorem Holds.settle (h : c.Holds made) {outcome : Except QueryError (Instance α)}
    (hmade : outcome.map (·.value) = made key) :
    (c.settle key outcome).1.map (·.value) = made key ∧ (c.settle key outcome).2.Holds made := by
  cases outcome with
  | error err => exact ⟨hmade, h⟩
  | ok built =>
      cases hfound : c.lookup? key with
      | some found =>
          have hvalue := h.of_lookup hfound
          rw [settle_found hfound]
          exact ⟨hvalue.symm, h.touch hvalue⟩
      | none =>
          rw [settle_missed hfound]
          exact ⟨hmade, h.insert hmade.symm⟩

theorem holds_clear : c.clear.Holds made := fun _ hentry => nomatch hentry

/-- What holds of a state before a build holds after it, and the build makes what the text stands
for; then so it is with the cache in front of the build. -/
theorem getOrBuild_holds {slot : Slot σ (Instance α)} {Good : σ → Prop}
    {build : σ → Except QueryError (Instance α) × σ}
    (hslot : ∀ s, slot.write (slot.read s) s = s)
    (hread : ∀ s, Good s → (slot.read s).Holds made)
    (hwrite : ∀ s c, Good s → c.Holds made → Good (slot.write c s))
    (hbuild : ∀ s, Good s → (build s).1.map (·.value) = made key ∧ Good (build s).2)
    (s : σ) (hs : Good s) :
    (getOrBuild slot key build s).1.map (·.value) = made key ∧
      Good (getOrBuild slot key build s).2 := by
  cases h : (slot.read s).lookup? key with
  | some value =>
      have hvalue := (hread s hs).of_lookup h
      rw [getOrBuild_hit h]
      exact ⟨hvalue.symm, hwrite s _ hs ((hread s hs).touch hvalue)⟩
  | none =>
      obtain ⟨hmade, hgood⟩ := hbuild s hs
      obtain ⟨hsettled, hholds⟩ := (hread _ hgood).settle hmade
      rw [getOrBuild_miss hslot h]
      exact ⟨hsettled, hwrite _ _ hgood hholds⟩

/-- A change of the state that neither the slot nor the build notices is not noticed at all. -/
theorem getOrBuild_unnoticed {ε : Type} {slot : Slot σ α} (change : σ → σ)
    {build : σ → Except ε α × σ} (hslot : ∀ s, slot.write (slot.read s) s = s)
    (hread : ∀ s, slot.read (change s) = slot.read s)
    (hwrite : ∀ c s, slot.write c (change s) = change (slot.write c s))
    (hbuild : ∀ s, build (change s) = ((build s).1, change (build s).2)) (s : σ) :
    getOrBuild slot key build (change s) =
      ((getOrBuild slot key build s).1, change (getOrBuild slot key build s).2) := by
  cases h : (slot.read s).lookup? key with
  | some value =>
      have h' : (slot.read (change s)).lookup? key = some value := hread s ▸ h
      rw [getOrBuild_hit h, getOrBuild_hit h', hread, hwrite]
  | none =>
      have h' : (slot.read (change s)).lookup? key = none := hread s ▸ h
      rw [getOrBuild_miss hslot h, getOrBuild_miss hslot h', hbuild, hread, hwrite]

end Cache

/-! ## Requests -/

/-- The languages of queries. -/
inductive Language where
  | expression
  | selector
deriving DecidableEq

namespace Language

def other : Language → Language
  | expression => selector
  | selector => expression

/-- The expression that a text stands for. -/
def read : Language → String → Except QueryError Expr
  | expression, text => Expr.parse text
  | selector, text => Selector.parseToExpr text

/-- The compiled query that a text stands for. -/
def query (language : Language) (text : String) : Except QueryError CompiledQuery :=
  (language.read text).map (CompiledQuery.ofExpr text)

end Language

/-- What an engine can be asked for. -/
inductive Request where
  | parse (language : Language) (text : String)
  | compile (language : Language) (text : String)
  | evaluate (v : View) (options : QueryOptions) (node : NodeId) (text : String)
  | select (v : View) (options : QueryOptions) (node : NodeId) (text : String)
  | clear

/-- An answer, without the number of the instance that it comes from. -/
inductive Answer where
  | expr (outcome : Except QueryError Expr)
  | query (outcome : Except QueryError CompiledQuery)
  | value (outcome : Except QueryError Value)
  | nodes (outcome : Except QueryError (List NodeId))
  | cleared

namespace Request

/-- The answer without any cache. -/
def direct : Request → Answer
  | parse language text => .expr (language.read text)
  | compile language text => .query (language.query text)
  | evaluate v options node text =>
    .value (Language.expression.read text >>= fun e => e.evaluate v options node)
  | select v options node text =>
    .nodes (Language.selector.read text >>= fun e => e.evaluate v options node >>= Value.toNodes)
  | clear => .cleared

/-- The language of the text of a request. -/
def language? : Request → Option Language
  | parse language _ | compile language _ => some language
  | evaluate .. => some .expression
  | select .. => some .selector
  | clear => none

end Request

namespace Engine

def parse : Language → String → Action (Instance Expr)
  | .expression => parseExpression
  | .selector => parseSelector

def compile : Language → String → Action (Instance CompiledQuery)
  | .expression => compileExpression
  | .selector => compileSelector

/-- The answer of an engine to a request, and the engine after it. -/
def perform (request : Request) (e : Engine) : Answer × Engine :=
  match request with
  | .parse language text =>
    let (outcome, e) := parse language text e
    (.expr (outcome.map (·.value)), e)
  | .compile language text =>
    let (outcome, e) := compile language text e
    (.query (outcome.map (·.value)), e)
  | .evaluate v options node text =>
    let (outcome, e) := evaluate v options node text e
    (.value outcome, e)
  | .select v options node text =>
    let (outcome, e) := select v options node text e
    (.nodes outcome, e)
  | .clear => (.cleared, e.clear)

/-- The answers to requests one after the other. -/
def performAll : List Request → Engine → List Answer × Engine
  | [], e => ([], e)
  | request :: requests, e =>
    let (answer, e) := perform request e
    let (answers, e) := performAll requests e
    (answer :: answers, e)

/-! ## Caches that hold what texts stand for -/

/-- Each entry of each cache is what its text stands for in the language of the cache. -/
structure Consistent (e : Engine) : Prop where
  expressions : e.expressions.Holds Language.expression.read
  selectors : e.selectors.Holds Language.selector.read
  compiledExpressions : e.compiledExpressions.Holds Language.expression.query
  compiledSelectors : e.compiledSelectors.Holds Language.selector.query

/-- From caches that hold what texts stand for, an action gives an outcome, and it leaves such
caches. -/
def Gives {α : Type} (action : Action (Instance α)) (outcome : Except QueryError α) : Prop :=
  ∀ e, e.Consistent → (action e).1.map (·.value) = outcome ∧ (action e).2.Consistent

variable {e : Engine}

theorem consistent_new (config : EngineConfig) : (Engine.new config).Consistent := by
  constructor <;> exact fun _ hentry => nomatch hentry

theorem Consistent.clear : e.clear.Consistent := by
  constructor <;> exact Cache.holds_clear

theorem gives_number {α : Type} (outcome : Except QueryError α) :
    Gives (number outcome) outcome := by
  intro e he
  cases outcome with
  | error err => exact ⟨rfl, he⟩
  | ok value => exact ⟨rfl, ⟨he.1, he.2, he.3, he.4⟩⟩

theorem gives_parse (language : Language) (text : String) :
    Gives (parse language text) (language.read text) := by
  cases language with
  | expression =>
      exact Cache.getOrBuild_holds (fun _ => rfl) (fun e he => he.expressions)
        (fun e c he hc => ⟨hc, he.2, he.3, he.4⟩) (gives_number _)
  | selector =>
      exact Cache.getOrBuild_holds (fun _ => rfl) (fun e he => he.selectors)
        (fun e c he hc => ⟨he.1, hc, he.3, he.4⟩) (gives_number _)

theorem gives_compileWith (language : Language) (text : String) :
    Gives (compileWith (parse language) text) (language.query text) := by
  intro e he
  obtain ⟨hread, hafter⟩ := gives_parse language text e he
  rw [Language.query, ← hread, compileWith]
  cases hparse : parse language text e with
  | mk outcome e' =>
      rw [hparse] at hafter
      cases outcome with
      | error err => exact ⟨rfl, hafter⟩
      | ok expr => exact gives_number (.ok (CompiledQuery.ofExpr text expr.value)) e' hafter

theorem gives_compile (language : Language) (text : String) :
    Gives (compile language text) (language.query text) := by
  cases language with
  | expression =>
      exact Cache.getOrBuild_holds (fun _ => rfl) (fun e he => he.compiledExpressions)
        (fun e c he hc => ⟨he.1, he.2, hc, he.4⟩) (gives_compileWith .expression text)
  | selector =>
      exact Cache.getOrBuild_holds (fun _ => rfl) (fun e he => he.compiledSelectors)
        (fun e c he hc => ⟨he.1, he.2, he.3, hc⟩) (gives_compileWith .selector text)

/-- One request: the answer is the direct one, and the caches still hold what texts stand for. -/
theorem perform_eq_direct (request : Request) (he : e.Consistent) :
    (perform request e).1 = request.direct ∧ (perform request e).2.Consistent := by
  cases request with
  | parse language text =>
      obtain ⟨hread, hafter⟩ := gives_parse language text e he
      exact ⟨congrArg Answer.expr hread, hafter⟩
  | compile language text =>
      obtain ⟨hquery, hafter⟩ := gives_compile language text e he
      exact ⟨congrArg Answer.query hquery, hafter⟩
  | evaluate v options node text =>
      obtain ⟨hread, hafter⟩ := gives_parse .expression text e he
      refine ⟨?_, hafter⟩
      rw [Request.direct, ← hread]
      change Answer.value ((parse .expression text e).1 >>= _) = _
      cases (parse .expression text e).1 with
      | error err => rfl
      | ok expr => rfl
  | select v options node text =>
      obtain ⟨hread, hafter⟩ := gives_parse .selector text e he
      refine ⟨?_, hafter⟩
      rw [Request.direct, ← hread]
      change Answer.nodes ((parse .selector text e).1 >>= _) = _
      cases (parse .selector text e).1 with
      | error err => rfl
      | ok expr => rfl
  | clear => exact ⟨rfl, .clear⟩

/-- Requests one after the other: every answer is the direct one. -/
theorem performAll_eq_direct (requests : List Request) (he : e.Consistent) :
    (performAll requests e).1 = requests.map Request.direct ∧
      (performAll requests e).2.Consistent := by
  induction requests generalizing e with
  | nil => exact ⟨rfl, he⟩
  | cons request requests ih =>
      obtain ⟨hanswer, hnext⟩ := perform_eq_direct request he
      obtain ⟨hanswers, hafter⟩ := ih hnext
      refine ⟨?_, hafter⟩
      rw [List.map_cons, ← hanswer, ← hanswers]
      rfl

/-! ## Caches of the other language -/

/-- The engine with other caches for one language. -/
def withCaches (language : Language) (read : Cache (Instance Expr))
    (compiled : Cache (Instance CompiledQuery)) (e : Engine) : Engine :=
  match language with
  | .expression => { e with expressions := read, compiledExpressions := compiled }
  | .selector => { e with selectors := read, compiledSelectors := compiled }

section
variable (language : Language) (read : Cache (Instance Expr))
  (compiled : Cache (Instance CompiledQuery))

theorem number_withCaches {α : Type} (result : Except QueryError α) (e : Engine) :
    number result (e.withCaches language read compiled) =
      ((number result e).1, (number result e).2.withCaches language read compiled) := by
  cases result <;> cases language <;> rfl

theorem parse_withCaches (text : String) (e : Engine) :
    parse language text (e.withCaches language.other read compiled) =
      ((parse language text e).1,
        (parse language text e).2.withCaches language.other read compiled) := by
  cases language with
  | expression =>
      exact Cache.getOrBuild_unnoticed (withCaches .selector read compiled) (fun _ => rfl)
        (fun _ => rfl) (fun _ _ => rfl) (number_withCaches .selector read compiled _) e
  | selector =>
      exact Cache.getOrBuild_unnoticed (withCaches .expression read compiled) (fun _ => rfl)
        (fun _ => rfl) (fun _ _ => rfl) (number_withCaches .expression read compiled _) e

theorem compileWith_withCaches (text : String) (e : Engine) :
    compileWith (parse language) text (e.withCaches language.other read compiled) =
      ((compileWith (parse language) text e).1,
        (compileWith (parse language) text e).2.withCaches language.other read compiled) := by
  rw [compileWith, compileWith, parse_withCaches]
  cases parse language text e with
  | mk outcome e' =>
      cases outcome with
      | error err => rfl
      | ok expr => exact number_withCaches language.other read compiled _ e'

theorem compile_withCaches (text : String) (e : Engine) :
    compile language text (e.withCaches language.other read compiled) =
      ((compile language text e).1,
        (compile language text e).2.withCaches language.other read compiled) := by
  cases language with
  | expression =>
      exact Cache.getOrBuild_unnoticed (withCaches .selector read compiled) (fun _ => rfl)
        (fun _ => rfl) (fun _ _ => rfl) (compileWith_withCaches .expression read compiled text) e
  | selector =>
      exact Cache.getOrBuild_unnoticed (withCaches .expression read compiled) (fun _ => rfl)
        (fun _ => rfl) (fun _ _ => rfl) (compileWith_withCaches .selector read compiled text) e

end

/-- The caches of the other language have no part in an answer, and the answer none in them. -/
theorem perform_withCaches (language : Language) (read : Cache (Instance Expr))
    (compiled : Cache (Instance CompiledQuery)) {request : Request}
    (hlanguage : request.language? = some language) (e : Engine) :
    perform request (e.withCaches language.other read compiled) =
      ((perform request e).1, (perform request e).2.withCaches language.other read compiled) := by
  cases request with
  | parse l text =>
      obtain rfl := Option.some.inj hlanguage
      rw [perform, perform, parse_withCaches]
  | compile l text =>
      obtain rfl := Option.some.inj hlanguage
      rw [perform, perform, compile_withCaches]
  | evaluate v options node text =>
      obtain rfl := Option.some.inj hlanguage
      have hparse := parse_withCaches .expression read compiled text e
      rw [parse] at hparse
      simp only [perform, evaluate, hparse]
  | select v options node text =>
      obtain rfl := Option.some.inj hlanguage
      have hparse := parse_withCaches .selector read compiled text e
      rw [parse] at hparse
      simp only [perform, select, hparse]
  | clear => nomatch hlanguage

/-! ## An engine without caches -/

/-- A new engine of any configuration answers all requests as without caches, and after them each
entry of a cache is what its text stands for. In no state of an engine does an answer come from the
caches of the other language. -/
theorem answers_as_uncached :
    (∀ config requests,
      (performAll requests (.new config)).1 = requests.map Request.direct ∧
        (performAll requests (.new config)).2.Consistent) ∧
    (∀ (request : Request) (language : Language), request.language? = some language →
      ∀ (read : Cache (Instance Expr)) (compiled : Cache (Instance CompiledQuery)) (e : Engine),
        (perform request (e.withCaches language.other read compiled)).1 = (perform request e).1 ∧
        (perform request (e.withCaches language.other read compiled)).2 =
          (perform request e).2.withCaches language.other read compiled) := by
  refine ⟨fun config requests => performAll_eq_direct requests (consistent_new config), ?_⟩
  intro request language hlanguage read compiled e
  have hperform := perform_withCaches language read compiled hlanguage e
  exact ⟨congrArg (·.1) hperform, congrArg (·.2) hperform⟩

/-- The text of a selector that was compiled before is read anew as an expression. -/
theorem answers_as_uncached_after_selector :
    let e := (performAll [.compile .selector "a"] (.new (.uniform (.bounded 1 Nat.one_pos)))).2
    (Request.compile .expression "a").language? = some .expression ∧
      (perform (.compile .expression "a")
        (e.withCaches .selector (.empty .unbounded) (.empty .unbounded))).1 =
          (perform (.compile .expression "a") e).1 ∧
      (perform (.compile .expression "a") e).1 = .query (Language.expression.query "a") := by
  intro e
  refine ⟨rfl, (answers_as_uncached.2 (.compile .expression "a") .expression rfl _ _ e).1, ?_⟩
  have hanswers := (answers_as_uncached.1 (.uniform (.bounded 1 Nat.one_pos))
    [.compile .selector "a", .compile .expression "a"]).1
  exact (List.cons.inj (List.cons.inj hanswers).2).1

end Engine

end TreeQuery
