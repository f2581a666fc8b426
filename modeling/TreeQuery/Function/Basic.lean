/-!
The core function library: the 27 functions, their names and how many arguments each accepts.
-/
namespace TreeQuery

inductive Function where
  | last | position | count | id | localName | namespaceUri | name
  | string | concat | startsWith | contains | substring | substringBefore | substringAfter
  | stringLength | normalizeSpace | translate
  | boolean | not | trueValue | falseValue | lang
  | number | sum | floor | ceiling | round
deriving DecidableEq, Repr

/-- Accepted argument counts: at least `least`, and at most `most` when there is a bound. -/
structure Arity where
  least : Nat
  most : Option Nat
deriving DecidableEq, Repr

namespace Arity

def admits (a : Arity) (given : Nat) : Bool :=
  a.least ≤ given && a.most.all (given ≤ ·)

/-- The accepted counts in words. -/
def describe (a : Arity) : String :=
  match a.most with
  | none => s!"at least {a.least}"
  | some most => if most = a.least then s!"exactly {most}" else s!"{a.least} to {most}"

end Arity

namespace Function

def all : List Function :=
  [last, position, count, id, localName, namespaceUri, name, string, concat, startsWith, contains,
    substring, substringBefore, substringAfter, stringLength, normalizeSpace, translate, boolean,
    not, trueValue, falseValue, lang, number, sum, floor, ceiling, round]

/-- The name by which an expression calls the function. -/
def title : Function → String
  | last => "last"
  | position => "position"
  | count => "count"
  | id => "id"
  | localName => "local-name"
  | namespaceUri => "namespace-uri"
  | name => "name"
  | string => "string"
  | concat => "concat"
  | startsWith => "starts-with"
  | contains => "contains"
  | substring => "substring"
  | substringBefore => "substring-before"
  | substringAfter => "substring-after"
  | stringLength => "string-length"
  | normalizeSpace => "normalize-space"
  | translate => "translate"
  | boolean => "boolean"
  | not => "not"
  | trueValue => "true"
  | falseValue => "false"
  | lang => "lang"
  | number => "number"
  | sum => "sum"
  | floor => "floor"
  | ceiling => "ceiling"
  | round => "round"

/-- The function of a given name, when there is one. -/
def ofTitle? (title : String) : Option Function := all.find? (·.title == title)

def arity : Function → Arity
  | last | position | trueValue | falseValue => ⟨0, some 0⟩
  | localName | namespaceUri | name | string | stringLength | normalizeSpace | number => ⟨0, some 1⟩
  | count | id | boolean | not | lang | sum | floor | ceiling | round => ⟨1, some 1⟩
  | startsWith | contains | substringBefore | substringAfter => ⟨2, some 2⟩
  | substring => ⟨2, some 3⟩
  | translate => ⟨3, some 3⟩
  | concat => ⟨2, none⟩

theorem mem_all (f : Function) : f ∈ all := by cases f <;> decide

theorem ofTitle?_title (f : Function) : ofTitle? f.title = some f := by cases f <;> decide

end Function

end TreeQuery
