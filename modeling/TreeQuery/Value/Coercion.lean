import TreeQuery.Number.Text
import TreeQuery.Tree.View
import TreeQuery.Value.Basic

/-!
Conversions between kinds of values, and the comparison for equality that rests on them. A node-set
becomes the text of its first node; a text that is no number becomes the number that is none.
-/
namespace TreeQuery.Value

variable (v : View)

def toString (value : Value) : String :=
  match value with
  | nodes [] => ""
  | nodes (id :: _) => v.stringValue id
  | boolean b => if b then "true" else "false"
  | number n => n.render
  | string s => s

def toNumber (value : Value) : Number :=
  match value with
  | nodes _ => Number.read (value.toString v)
  | boolean b => if b then Number.one else Number.zero
  | number n => n
  | string s => Number.read s

/-- Numbers other than zero, and whatever is not empty. -/
def toBoolean : Value → Bool
  | nodes ids => !ids.isEmpty
  | boolean b => b
  | number n => !(n.isZero || n.isNaN)
  | string s => s != ""

/-- A node-set as its text; other values as they are. -/
def scalar (value : Value) : Value :=
  match value with
  | nodes _ => string (value.toString v)
  | value => value

/-- Two values brought to one kind: to numbers if either is one, else to strings if either is one,
else to booleans. Node-sets count as strings. -/
def unify (left right : Value) : Value × Value :=
  let left := left.scalar v
  let right := right.scalar v
  match left, right with
  | number _, _ | _, number _ => (number (left.toNumber v), number (right.toNumber v))
  | string _, _ | _, string _ => (string (left.toString v), string (right.toString v))
  | _, _ => (boolean left.toBoolean, boolean right.toBoolean)

/-- Whether two values are equal once they are of one kind. -/
def equal (left right : Value) : Bool :=
  match unify v left right with
  | (number a, number b) => a.eq b
  | (string a, string b) => a == b
  | (boolean a, boolean b) => a == b
  | _ => false

end TreeQuery.Value
