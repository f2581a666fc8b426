import TreeQuery.Eval.Focus
import TreeQuery.Function.Text
import TreeQuery.Value.Coercion

/-!
Calls of the core functions on values.
-/
namespace TreeQuery.Function

open TreeQuery.Text (words)

variable (v : View)

/-- The node that a function with an optional node-set speaks of: the first of the set, or the
node in focus. -/
def targetNode (focus : Focus) : List Value → Except QueryError (Option NodeId)
  | [] => .ok (some focus.node)
  | arg :: _ => do
    let ids ← arg.toNodes
    .ok ids.head?

/-- The text that a function with an optional value speaks of. -/
def targetText (focus : Focus) : List Value → String
  | [] => v.stringValue focus.node
  | arg :: _ => arg.toString v

/-- Something about the target node as a text; nothing known is the empty text. -/
def aboutTarget (ask : NodeId → Option String) (focus : Focus) (args : List Value) :
    Except QueryError Value := do
  let target ← targetNode focus args
  .ok (.string ((target.bind ask).getD ""))

/-- The texts of all nodes with a blank between two, or the text of another value. -/
def joinedText : Value → String
  | .nodes ids => " ".intercalate (ids.map v.stringValue)
  | value => value.toString v

/-- The elements whose attribute `id` is one of the words of a value, in document order. -/
def elementsById (value : Value) : List NodeId :=
  let wanted := words (joinedText v value).toList
  if wanted.isEmpty then []
  else
    (v.descendants View.documentNode).filter fun id =>
      v.kind id == .element &&
        match v.attribute? id "id" with
        | some text => wanted.contains text.toList
        | none => false

/-- Whether the nearest language tag around a node fits. -/
def inLanguage (wanted : String) (id : NodeId) : Bool :=
  match (id :: v.ancestors id).findSome? fun id => v.attribute? id "xml:lang" with
  | some tag => languageFits wanted tag
  | none => false

/-- The sum of the numbers that the texts of nodes spell. It starts at the negative zero, which is
the sum of no numbers. -/
def sumOf (ids : List NodeId) : Number :=
  (ids.map fun id => Number.read (v.stringValue id)).foldl (· + ·) (-Number.zero)

/-- The value of a function for arguments of an accepted number. -/
def apply (focus : Focus) : Function → List Value → Except QueryError Value
  | last, [] => .ok (.ofNat focus.size)
  | position, [] => .ok (.ofNat focus.position)
  | count, [a] => do .ok (.ofNat (← a.toNodes).length)
  | id, [a] => .ok (.nodes (elementsById v a))
  | localName, args => aboutTarget v.localName? focus args
  | namespaceUri, args => aboutTarget v.uri? focus args
  | name, args => aboutTarget v.name? focus args
  | string, args => .ok (.string (targetText v focus args))
  | concat, args => .ok (.string (String.join (args.map (·.toString v))))
  | startsWith, [a, b] => .ok (.boolean (startsWithText (a.toString v) (b.toString v)))
  | contains, [a, b] => .ok (.boolean (containsText (a.toString v) (b.toString v)))
  | substring, [a, b] =>
    .ok (.string (charsFrom (a.toString v) (b.toNumber v).round (.infinite false)))
  | substring, [a, b, c] =>
    let first := (b.toNumber v).round
    .ok (.string (charsFrom (a.toString v) first (first + (c.toNumber v).round)))
  | substringBefore, [a, b] => .ok (.string (textBefore (a.toString v) (b.toString v)))
  | substringAfter, [a, b] => .ok (.string (textAfter (a.toString v) (b.toString v)))
  | stringLength, args => .ok (.ofNat (targetText v focus args).length)
  | normalizeSpace, args => .ok (.string (singleSpaced (targetText v focus args)))
  | translate, [a, b, c] =>
    .ok (.string (translateText (a.toString v) (b.toString v) (c.toString v)))
  | boolean, [a] => .ok (.boolean a.toBoolean)
  | not, [a] => .ok (.boolean (!a.toBoolean))
  | trueValue, [] => .ok (.boolean true)
  | falseValue, [] => .ok (.boolean false)
  | lang, [a] => .ok (.boolean (inLanguage v (a.toString v) focus.node))
  | number, [] => .ok (.number (Number.read (v.stringValue focus.node)))
  | number, a :: _ => .ok (.number (a.toNumber v))
  | sum, [a] => do .ok (.number (sumOf v (← a.toNodes)))
  | floor, [a] => .ok (.number (a.toNumber v).floor)
  | ceiling, [a] => .ok (.number (a.toNumber v).ceil)
  | round, [a] => .ok (.number (a.toNumber v).round)
  | f, args => .error (.argumentCount f args.length)

/-- Calls a function; the number of arguments is looked at first. -/
def call (focus : Focus) (f : Function) (args : List Value) : Except QueryError Value :=
  if f.arity.admits args.length then apply v focus f args
  else .error (.argumentCount f args.length)

end TreeQuery.Function
