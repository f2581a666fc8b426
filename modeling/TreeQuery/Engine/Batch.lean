import TreeQuery.Engine.Basic

/-!
Many queries at once. Queries of a batch start at the document node and are answered in order; one
that fails does not touch the others.
-/
namespace TreeQuery

namespace Engine

variable (v : View) (options : QueryOptions)

/-- The answers to several expressions over one tree. -/
def evaluateAll : List String → Engine → List (Except QueryError Value) × Engine
  | [], e => ([], e)
  | text :: texts, e =>
    let (answer, e) := evaluate v options View.documentNode text e
    let (answers, e) := evaluateAll texts e
    (answer :: answers, e)

/-- The values of several expressions with a key each, in order, if none of them fails. -/
def evaluateKeyed (queries : List (String × String)) : Action (List (String × Value)) := fun e =>
  let (answers, e) := evaluateAll v options (queries.map (·.2)) e
  (((queries.map (·.1)).zip answers).mapM fun (key, answer) => answer.map fun value => (key, value), e)

end Engine

/-- The answers to one query over several trees. -/
def CompiledQuery.callAll (q : CompiledQuery) (views : List View) (options : QueryOptions) :
    List (Except QueryError Value) :=
  views.map fun v => q.call v options View.documentNode

end TreeQuery
