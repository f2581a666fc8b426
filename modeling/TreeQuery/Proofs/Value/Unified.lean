import TreeQuery.Value.Coercion

/-!
Two values brought to one kind. The kind is told by the kinds of the two values alone, and each
value is converted to it by itself, whatever the other one is. So the order of the two does not
matter, and values of one scalar kind stay as they are.
-/
namespace TreeQuery

namespace ValueKind

/-- The kind for two values: that of numbers if either is one, else that of strings if either is a
string or a node-set. -/
def common (left right : ValueKind) : ValueKind :=
  if left = number ∨ right = number then number
  else if left = string ∨ left = nodeSet ∨ right = string ∨ right = nodeSet then string
  else boolean

theorem common_comm (left right : ValueKind) : left.common right = right.common left := by
  cases left <;> cases right <;> rfl

theorem common_ne_nodeSet (left right : ValueKind) : left.common right ≠ nodeSet := by
  cases left <;> cases right <;> decide

theorem common_self {k : ValueKind} (h : k ≠ nodeSet) : k.common k = k := by
  cases k with
  | nodeSet => exact absurd rfl h
  | boolean | number | string => rfl

end ValueKind

namespace Value

variable (v : View)

/-- A value as one of another kind. Nothing becomes a node-set. -/
def converted (k : ValueKind) (value : Value) : Value :=
  match k with
  | .number => number (value.toNumber v)
  | .string => string (value.toString v)
  | .boolean => boolean value.toBoolean
  | .nodeSet => value

variable {v} {k : ValueKind} {left right value : Value}

theorem kind_converted (h : k ≠ .nodeSet) (value : Value) : (value.converted v k).kind = k := by
  cases k with
  | nodeSet => exact absurd rfl h
  | boolean | number | string => rfl

theorem scalar_eq (value : Value) :
    value.scalar v =
      match value with
      | nodes ids => string ((ids.head?.map v.stringValue).getD "")
      | value => value := by
  cases value with
  | nodes ids => cases ids <;> rfl
  | boolean | number | string => rfl

/-- A value of a scalar kind is converted to its own kind without a change. -/
theorem converted_of_kind (hk : value.kind = k) (h : k ≠ .nodeSet) :
    (value.scalar v).converted v k = value := by
  subst hk
  cases value with
  | nodes ids => exact absurd rfl h
  | boolean | number | string => rfl

theorem unify_eq (left right : Value) :
    let k := left.kind.common right.kind
    unify v left right = ((left.scalar v).converted v k, (right.scalar v).converted v k) := by
  cases left <;> cases right <;> rfl

theorem unify_comm (left right : Value) : unify v right left = (unify v left right).swap := by
  rw [unify_eq, unify_eq, ValueKind.common_comm, Prod.swap_prod_mk]

theorem unify_of_kind (hleft : left.kind = k) (hright : right.kind = k) (h : k ≠ .nodeSet) :
    unify v left right = (left, right) := by
  rw [unify_eq, hleft, hright, ValueKind.common_self h, converted_of_kind hleft h,
    converted_of_kind hright h]

/-- A comparison compares what two values of one scalar kind hold. -/
theorem equal_of_unify (left right : Value) :
    (∃ a b, unify v left right = (number a, number b) ∧ equal v left right = a.eq b) ∨
      (∃ a b, unify v left right = (string a, string b) ∧ equal v left right = (a == b)) ∨
      ∃ a b, unify v left right = (boolean a, boolean b) ∧ equal v left right = (a == b) := by
  rw [equal, unify_eq]
  cases hk : left.kind.common right.kind with
  | nodeSet => exact absurd hk (ValueKind.common_ne_nodeSet _ _)
  | number => exact .inl ⟨_, _, rfl, rfl⟩
  | string => exact .inr (.inl ⟨_, _, rfl, rfl⟩)
  | boolean => exact .inr (.inr ⟨_, _, rfl, rfl⟩)

/-- Two values are brought to one scalar kind: to numbers if either is one, else to strings if
either is a string or a node-set, else they are truth values. Each is converted by itself, a
node-set as the text of its first node. In the other order, the two results change places; brought
to one kind once more, they stay as they are; and a comparison always compares two numbers, two
strings or two truth values. -/
theorem unify_to_common_kind (v : View) (left right : Value) :
    let k := left.kind.common right.kind
    let results := unify v left right
    (results = ((left.scalar v).converted v k, (right.scalar v).converted v k) ∧
      results.1.kind = k ∧ results.2.kind = k ∧ k ≠ .nodeSet) ∧
    (∀ value : Value, value.scalar v =
      match value with
      | nodes ids => string ((ids.head?.map v.stringValue).getD "")
      | value => value) ∧
    unify v right left = results.swap ∧
    unify v results.1 results.2 = results ∧
    ((∃ a b, results = (number a, number b) ∧ equal v left right = a.eq b) ∨
      (∃ a b, results = (string a, string b) ∧ equal v left right = (a == b)) ∨
      ∃ a b, results = (boolean a, boolean b) ∧ equal v left right = (a == b)) := by
  intro k results
  have hresults : results = ((left.scalar v).converted v k, (right.scalar v).converted v k) :=
    unify_eq left right
  have hk : k ≠ .nodeSet := ValueKind.common_ne_nodeSet _ _
  have hleft : results.1.kind = k := by rw [hresults]; exact kind_converted hk _
  have hright : results.2.kind = k := by rw [hresults]; exact kind_converted hk _
  exact ⟨⟨hresults, hleft, hright, hk⟩, scalar_eq, unify_comm left right,
    unify_of_kind hleft hright hk, equal_of_unify left right⟩

end Value

end TreeQuery
