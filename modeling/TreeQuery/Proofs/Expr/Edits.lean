import Mathlib.Data.List.Basic
import TreeQuery.Expr.Basic

/-!
Edits of the direct parts of an expression. An expression is its head and its parts and nothing
else, and an edit keeps the head. So what an edit makes is told by the parts it has, and those are
the parts that were given, wherever the head admits them.
-/
namespace TreeQuery.Expr

/-- What an expression is besides its direct parts: its form, and the axis, node test, operator,
name or literal that is its own. -/
inductive Head where
  | absolute
  | relative
  | step (axis : Axis) (test : NodeTest)
  | filter
  | binary (op : BinaryOp)
  | union
  | negate
  | string (text : String)
  | number (value : Number)
  | call (function : String)
  | reference (name : String)
deriving DecidableEq

def head : Expr → Head
  | absolute _ => .absolute
  | relative _ => .relative
  | step axis test _ => .step axis test
  | filter .. => .filter
  | binary op _ _ => .binary op
  | union .. => .union
  | negate _ => .negate
  | string text => .string text
  | number value => .number value
  | call function _ => .call function
  | reference name => .reference name

/-- Whether there is always room for one more part: in paths, steps, filters and calls. -/
def extensible : Expr → Bool
  | absolute _ | relative _ | step .. | filter .. | call .. => true
  | _ => false

/-- The lists that can be the parts of an expression with this head. A path, a step and a call take
any list, a filter needs a node-set before its predicates, and all others have a number of parts
that is fixed. -/
def Admits : Expr → List Expr → Prop
  | absolute _, _ | relative _, _ | step .., _ | call .., _ => True
  | filter .., parts => parts ≠ []
  | e, parts => parts.length = e.children.length

variable {e e' : Expr} {parts others : List Expr}

/-- An expression has nothing besides its head and its parts. -/
theorem ext_head_children (hhead : e.head = e'.head) (hparts : e.children = e'.children) :
    e = e' := by
  -- Of all pairs of forms, `hhead` leaves those of the same form.
  cases e <;> cases e' <;> cases hhead <;> cases hparts <;> rfl

theorem admits_iff_of_fixed (h : ¬ e.extensible) :
    e.Admits parts ↔ parts.length = e.children.length := by
  cases e with
  | absolute | relative | step | filter | call => exact absurd rfl h
  | binary | union | negate | string | number | reference => rfl

theorem admits_of_extensible (h : e.extensible) (hne : parts ≠ []) : e.Admits parts := by
  cases e with
  | absolute | relative | step | call => trivial
  | filter => exact hne
  | binary | union | negate | string | number | reference => cases h

/-! ## Other parts -/

@[simp] theorem head_withChildren (e : Expr) (parts : List Expr) :
    (e.withChildren parts).head = e.head := by
  cases e <;> rfl

@[simp] theorem extensible_withChildren (e : Expr) (parts : List Expr) :
    (e.withChildren parts).extensible = e.extensible := by
  cases e <;> rfl

theorem admits_withChildren : (e.withChildren parts).Admits others ↔ e.Admits others := by
  cases e <;> rfl

@[simp] theorem withChildren_children (e : Expr) : e.withChildren e.children = e := by
  cases e <;> rfl

/-- Where the number of parts is fixed, those that are missing from the list stay, and those beyond
are left out. -/
theorem children_withChildren_of_fixed (h : ¬ e.extensible) (parts : List Expr) :
    (e.withChildren parts).children =
      parts.take e.children.length ++ e.children.drop parts.length := by
  cases e with
  | absolute | relative | step | filter | call => exact absurd rfl h
  | binary _ left right | union left right =>
      match parts with
      | [] | [_] | _ :: _ :: _ => simp [withChildren, children]
  | negate operand => cases parts <;> simp [withChildren, children]
  | string | number | reference => simp [withChildren, children]

/-- The parts that were put in are read back, if and only if the expression admits them. -/
theorem children_withChildren_iff : (e.withChildren parts).children = parts ↔ e.Admits parts := by
  by_cases h : e.extensible
  · cases e with
    | absolute | relative | step | call => exact iff_of_true rfl trivial
    | filter primary predicates => cases parts <;> simp [withChildren, children, Admits]
    | binary | union | negate | string | number | reference => cases h
  · rw [admits_iff_of_fixed h, children_withChildren_of_fixed h]
    constructor
    · intro hparts
      -- The new list is as long as the old one, whatever was put in.
      have hlength := congrArg List.length hparts
      rw [List.length_append, List.length_take, List.length_drop] at hlength
      omega
    · intro hlength
      rw [← hlength, List.take_length, List.drop_eq_nil_of_le (Nat.le_of_eq hlength.symm),
        List.append_nil]

theorem Admits.children_withChildren (h : e.Admits parts) :
    (e.withChildren parts).children = parts :=
  children_withChildren_iff.mpr h

/-- Of two edits, only the last one counts. -/
theorem Admits.withChildren_withChildren (h : e.Admits others) :
    (e.withChildren parts).withChildren others = e.withChildren others := by
  apply ext_head_children
  · simp only [head_withChildren]
  · rw [(admits_withChildren.mpr h).children_withChildren, h.children_withChildren]

/-! ## One more part -/

@[simp] theorem head_pushChild (e part : Expr) : (e.pushChild part).head = e.head :=
  head_withChildren e _

@[simp] theorem extensible_pushChild (e part : Expr) :
    (e.pushChild part).extensible = e.extensible :=
  extensible_withChildren e _

theorem children_pushChild (h : e.extensible) (part : Expr) :
    (e.pushChild part).children = e.children ++ [part] :=
  (admits_of_extensible h (by simp)).children_withChildren

theorem pushChild_of_fixed (h : ¬ e.extensible) (part : Expr) : e.pushChild part = e := by
  apply ext_head_children (head_pushChild e part)
  rw [pushChild, children_withChildren_of_fixed h, List.take_left, List.length_append,
    List.drop_eq_nil_of_le (Nat.le_add_right _ _), List.append_nil]

@[simp] theorem head_foldl_pushChild (e : Expr) (parts : List Expr) :
    (parts.foldl pushChild e).head = e.head := by
  induction parts generalizing e with
  | nil => rfl
  | cons part parts ih => rw [List.foldl_cons, ih, head_pushChild]

/-- Parts that are pushed one after the other stand behind the old ones, in their order. -/
theorem children_foldl_pushChild (h : e.extensible) (parts : List Expr) :
    (parts.foldl pushChild e).children = e.children ++ parts := by
  induction parts generalizing e with
  | nil => exact (List.append_nil _).symm
  | cons part parts ih =>
      rw [List.foldl_cons, ih (by rwa [extensible_pushChild]), children_pushChild h,
        List.append_assoc, List.singleton_append]

theorem foldl_pushChild_of_fixed (h : ¬ e.extensible) (parts : List Expr) :
    parts.foldl pushChild e = e :=
  List.foldl_fixed' (pushChild_of_fixed h) parts

/-- A step gets its predicates one by one. -/
theorem foldl_pushChild_step (axis : Axis) (test : NodeTest) (predicates : List Expr) :
    predicates.foldl pushChild (step axis test []) = step axis test predicates :=
  ext_head_children (head_foldl_pushChild _ _) (children_foldl_pushChild rfl predicates)

/-! ## Laws of edits -/

/-- An edit with the parts that are there changes nothing. Every edit keeps the head, and head and
parts together are the whole expression. The parts of an edit are read back if and only if the
expression admits them; where their number is fixed, missing ones stay and those beyond are left
out. Of two edits only the last one counts. To push a part puts it behind the others where there is
room for it, and changes nothing elsewhere; and so does a list of parts, pushed one by one. -/
theorem edits_of_parts (e : Expr) :
    e.withChildren e.children = e ∧
    (∀ e' : Expr, e.head = e'.head → e.children = e'.children → e = e') ∧
    (∀ parts, (e.withChildren parts).head = e.head) ∧
    (∀ parts, (e.withChildren parts).children = parts ↔ e.Admits parts) ∧
    (∀ parts, ¬ e.extensible → (e.withChildren parts).children =
      parts.take e.children.length ++ e.children.drop parts.length) ∧
    (∀ parts others, e.Admits others →
      (e.withChildren parts).withChildren others = e.withChildren others) ∧
    (∀ part, (e.pushChild part).head = e.head ∧
      if e.extensible then (e.pushChild part).children = e.children ++ [part]
      else e.pushChild part = e) ∧
    ∀ parts, (parts.foldl pushChild e).head = e.head ∧
      if e.extensible then (parts.foldl pushChild e).children = e.children ++ parts
      else parts.foldl pushChild e = e := by
  refine ⟨withChildren_children e, fun _ => ext_head_children, head_withChildren e,
    fun _ => children_withChildren_iff, fun parts h => children_withChildren_of_fixed h parts,
    fun _ _ h => h.withChildren_withChildren, fun part => ⟨head_pushChild e part, ?_⟩,
    fun parts => ⟨head_foldl_pushChild e parts, ?_⟩⟩
  · split
    · exact children_pushChild ‹_› part
    · exact pushChild_of_fixed ‹_› part
  · split
    · exact children_foldl_pushChild ‹_› parts
    · exact foldl_pushChild_of_fixed ‹_› parts

/-- `$x["a"]` gets `$y` and two predicates, after an edit that left it without predicates; and of
`$x + $y`, an edit with one part replaces the left operand. -/
theorem edits_of_parts_filter_and_sum :
    let e : Expr := .filter (.reference "x") [.string "a"]
    let others : List Expr := [.reference "y", .string "b", .string "c"]
    let sum : Expr := .binary .add (.reference "x") (.reference "y")
    e.Admits others ∧ (e.withChildren others).children = others ∧
      (e.withChildren []).withChildren others =
        .filter (.reference "y") [.string "b", .string "c"] ∧
      ¬ sum.extensible ∧
      (sum.withChildren [.string "a"]).children = [.string "a", .reference "y"] := by
  intro e others sum
  obtain ⟨-, -, -, hread, -, htwice, -, -⟩ := edits_of_parts e
  obtain ⟨-, -, -, -, hfixed, -, -, -⟩ := edits_of_parts sum
  have hadmits : e.Admits others := List.cons_ne_nil _ _
  have hsum : ¬ sum.extensible := Bool.false_ne_true
  exact ⟨hadmits, (hread others).mpr hadmits, htwice [] others hadmits, hsum, hfixed _ hsum⟩

end TreeQuery.Expr
