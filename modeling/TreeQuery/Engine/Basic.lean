import TreeQuery.Cache
import TreeQuery.Eval.Expr
import TreeQuery.Expr.Parser
import TreeQuery.Program.Compile
import TreeQuery.Program.Run
import TreeQuery.Selector.Expression

/-!
The query engine: four caches in front of reading and compiling. Expressions and selectors have
caches of their own, so a text is never answered in the other language. Everything that is built
carries a number of its own, which tells instances apart.
-/
namespace TreeQuery

/-- What was built once, with the number under which it was built. -/
structure Instance (α : Type) where
  serial : Nat
  value : α

structure EngineConfig where
  expressions : CachePolicy := .unbounded
  selectors : CachePolicy := .unbounded
  /-- For the compiled queries of either language. -/
  compiled : CachePolicy := .unbounded
deriving Inhabited

/-- The same policy everywhere. -/
def EngineConfig.uniform (policy : CachePolicy) : EngineConfig := ⟨policy, policy, policy⟩

structure Engine where
  expressions : Cache (Instance Expr)
  selectors : Cache (Instance Expr)
  compiledExpressions : Cache (Instance CompiledQuery)
  compiledSelectors : Cache (Instance CompiledQuery)
  /-- How many instances were built. -/
  built : Nat

namespace Engine

def new (config : EngineConfig) : Engine :=
  { expressions := .empty config.expressions
    selectors := .empty config.selectors
    compiledExpressions := .empty config.compiled
    compiledSelectors := .empty config.compiled
    built := 0 }

/-- A step of the engine: an answer, and the engine after it. -/
abbrev Action (α : Type) := Engine → Except QueryError α × Engine

def expressionSlot : Cache.Slot Engine (Instance Expr) :=
  ⟨(·.expressions), fun c e => { e with expressions := c }⟩

def selectorSlot : Cache.Slot Engine (Instance Expr) :=
  ⟨(·.selectors), fun c e => { e with selectors := c }⟩

def compiledExpressionSlot : Cache.Slot Engine (Instance CompiledQuery) :=
  ⟨(·.compiledExpressions), fun c e => { e with compiledExpressions := c }⟩

def compiledSelectorSlot : Cache.Slot Engine (Instance CompiledQuery) :=
  ⟨(·.compiledSelectors), fun c e => { e with compiledSelectors := c }⟩

/-- Numbers what was built; a failure takes no number. -/
def number {α : Type} (result : Except QueryError α) : Action (Instance α) := fun e =>
  match result with
  | .error err => (.error err, e)
  | .ok value => (.ok ⟨e.built, value⟩, { e with built := e.built + 1 })

/-- The expression of a text. -/
def parseExpression (text : String) : Action (Instance Expr) :=
  Cache.getOrBuild expressionSlot text (number (Expr.parse text))

/-- The expression of a list of selectors. -/
def parseSelector (text : String) : Action (Instance Expr) :=
  Cache.getOrBuild selectorSlot text (number (Selector.parseToExpr text))

/-- Compiles what was read from a text. -/
def compileWith (parse : String → Action (Instance Expr)) (text : String) :
    Action (Instance CompiledQuery) := fun e =>
  match parse text e with
  | (.error err, e) => (.error err, e)
  | (.ok expr, e) => number (.ok (CompiledQuery.ofExpr text expr.value)) e

/-- The compiled query of the text of an expression. -/
def compileExpression (text : String) : Action (Instance CompiledQuery) :=
  Cache.getOrBuild compiledExpressionSlot text (compileWith parseExpression text)

/-- The compiled query of a list of selectors. -/
def compileSelector (text : String) : Action (Instance CompiledQuery) :=
  Cache.getOrBuild compiledSelectorSlot text (compileWith parseSelector text)

section
variable (v : View) (options : QueryOptions) (node : NodeId) (text : String)

/-- The value of an expression at a node. -/
def evaluate : Action Value := fun e =>
  let (expr, e) := parseExpression text e
  (expr.bind fun expr => expr.value.evaluate v options node, e)

/-- The nodes that a list of selectors selects from a node. -/
def select : Action (List NodeId) := fun e =>
  let (expr, e) := parseSelector text e
  (do (← (← expr).value.evaluate v options node).toNodes, e)

end

/-- Empties all caches. -/
def clear (e : Engine) : Engine :=
  { e with
    expressions := e.expressions.clear
    selectors := e.selectors.clear
    compiledExpressions := e.compiledExpressions.clear
    compiledSelectors := e.compiledSelectors.clear }

/-- How many expressions, selectors and compiled queries are cached. -/
def sizes (e : Engine) : Nat × Nat × Nat :=
  (e.expressions.size, e.selectors.size, e.compiledExpressions.size + e.compiledSelectors.size)

end Engine

/-! ## Queries by themselves -/

/-- The engine of queries that name none: it forgets nothing. -/
def defaultEngine : Engine := .new {}

/-- The value of an expression at a node. -/
def evaluate (v : View) (options : QueryOptions) (node : NodeId) (text : String) :
    Except QueryError Value :=
  (Engine.evaluate v options node text defaultEngine).1

/-- The nodes that a list of selectors selects from a node, with default options. -/
def select (v : View) (node : NodeId) (text : String) : Except QueryError (List NodeId) :=
  (Engine.select v {} node text defaultEngine).1

def compileExpression (text : String) : Except QueryError CompiledQuery :=
  (Engine.compileExpression text defaultEngine).1.map (·.value)

def compileSelector (text : String) : Except QueryError CompiledQuery :=
  (Engine.compileSelector text defaultEngine).1.map (·.value)

end TreeQuery
