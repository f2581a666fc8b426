import TreeQuery.Proofs.Expr.Flat
import TreeQuery.Proofs.Expr.Grammar

/-!
Which expressions can be told from their texts, and what their tokens are read as. `Legible` says
what gets in the way: a slash by itself or a minus sign that no parenthesis closes off, a quote in
the target of an instruction, and a number without digits.
-/
namespace TreeQuery

/-- The target of an instruction can stand between single quotes. -/
def NodeTest.Legible : NodeTest → Prop
  | instruction (some target) => '\x27' ∉ target.toList
  | _ => True

namespace BinaryOp

def level : BinaryOp → Expr.Level
  | or => .or
  | and => .and
  | eq | ne => .equality
  | lt | le | gt | ge => .order
  | add | sub => .sum
  | mul | div | mod => .product

def token : BinaryOp → Expr.TokenKind
  | or => .or
  | and => .and
  | eq => .eq
  | ne => .notEq
  | lt => .lt
  | le => .ltEq
  | gt => .gt
  | ge => .gtEq
  | add => .plus
  | sub => .minus
  | mul => .star
  | div => .div
  | mod => .mod

theorem mem_operators (op : BinaryOp) : (op.token, op) ∈ op.level.operators := by
  cases op <;> simp [level, token, Expr.Level.operators]

/-- Operators that are written like a node test. -/
def isStepLike : BinaryOp → Bool
  | or | and | mul | div | mod => true
  | _ => false

end BinaryOp

namespace Expr

/-! ## Legible expressions -/

/-- The path to the document node, a slash by itself. -/
def isRoot : Expr → Bool
  | absolute [] => true
  | _ => false

def isNegation : Expr → Bool
  | negate _ => true
  | _ => false

/-- What an expression itself needs to be read back, its parts left aside. -/
def Legible : Expr → Prop
  | relative parts => ∀ first ∈ parts.head?, first.isRoot = false ∧ first.isNegation = false
  | step _ test _ => test.Legible
  | binary op left _ => op.isStepLike = true → left.isRoot = false
  | union left right => left.isNegation = false ∧ right.isNegation = false
  | number value => value ≠ .infinite false
  | _ => True

@[simp] theorem legible_relative {first : Expr} {rest : List Expr} :
    (relative (first :: rest)).Legible ↔ first.isRoot = false ∧ first.isNegation = false := by
  simp [Legible]

/-! ## Derivations -/

section
variable {e : Expr} {kinds ts rest : List TokenKind} {level : Level}

theorem Derives.whole_of_operation (h : Derives (.operation level e) ts rest) :
    Derives (.whole e) ts rest := by
  cases level with
  | or => exact h
  | and => exact .operand h
  | equality => exact .operand (.operand h)
  | order => exact .operand (.operand (.operand h))
  | sum => exact .operand (.operand (.operand (.operand h)))
  | product => exact .operand (.operand (.operand (.operand (.operand h))))

theorem Derives.operation_of_signed (h : Derives (.signed e) ts rest) (level : Level) :
    Derives (.operation level e) ts rest := by
  cases level with
  | or => exact .operand (.operand (.operand (.operand (.operand (.operand h)))))
  | and => exact .operand (.operand (.operand (.operand (.operand h))))
  | equality => exact .operand (.operand (.operand (.operand h)))
  | order => exact .operand (.operand (.operand h))
  | sum => exact .operand (.operand h)
  | product => exact .operand h

theorem Derives.operand_of_signed (h : Derives (.signed e) ts rest) (level : Level) :
    Derives (level.operand e) ts rest := by
  cases level with
  | product => exact h
  | _ => exact h.operation_of_signed _

/-- The tokens are read as the flat expression, as tightly as an expression of its form can be. -/
structure Readable (e : Expr) (kinds : List TokenKind) : Prop where
  step (hstep : e.isStep = true) (rest : List TokenKind) :
    Derives (.step e.flat) (kinds ++ rest) rest
  path (hstep : e.isStep = false) (hneg : e.isNegation = false) (rest : List TokenKind)
    (hroot : e.isRoot = true → startsStep rest = false) :
    Derives (.path e.flat) (kinds ++ rest) rest
  signed (hstep : e.isStep = false) (rest : List TokenKind)
    (hroot : e.isRoot = true → startsStep rest = false) :
    Derives (.signed e.flat) (kinds ++ rest) rest
  leads (hneg : e.isNegation = false) (hroot : e.isRoot = false) {es : List Expr}
    {ts rest : List TokenKind} (h : Derives (.steps es) ts rest) :
    Derives (.path (lead e.flat es)) (kinds ++ .slash :: ts) rest

theorem Readable.whole (h : Readable e kinds) (hstep : e.isStep = false)
    (hrest : startsStep rest = false) : Derives (.whole e.flat) (kinds ++ rest) rest :=
  (h.signed hstep rest fun _ => hrest).operation_of_signed .or

theorem readable_of_value (hstep : e.isStep = false)
    (hlead : ∀ es, lead e.flat es = relative (e.flat :: es))
    (h : ∀ rest, Derives (.value e.flat) (kinds ++ rest) rest) : Readable e kinds where
  step hs := absurd (hstep.symm.trans hs) (by decide)
  path _ _ rest _ := .valuePath (h rest)
  signed _ rest _ := .unsigned (.member (.valuePath (h rest)))
  leads _ _ _ _ _ hsteps := by
    rw [hlead]
    exact .valueSteps (h _) hsteps

theorem lead_of_isStep (h : e.isStep = true) (es : List Expr) :
    lead e es = relative (e :: es) := by
  cases e with
  | step => rfl
  | _ => cases h

theorem readable_of_step (hstep : e.isStep = true)
    (h : ∀ rest, Derives (.step e.flat) (kinds ++ rest) rest) : Readable e kinds where
  step _ := h
  path hs := absurd (hs.symm.trans hstep) (by decide)
  signed hs := absurd (hs.symm.trans hstep) (by decide)
  leads _ _ _ _ _ hsteps := by
    rw [lead_of_isStep ((isStep_flat e).trans hstep)]
    exact .relative (.stepSlash (h _) hsteps)

theorem readable_of_path (hstep : e.isStep = false)
    (hpath : ∀ rest, (e.isRoot = true → startsStep rest = false) →
      Derives (.path e.flat) (kinds ++ rest) rest)
    (hleads : e.isRoot = false → ∀ {es ts rest}, Derives (.steps es) ts rest →
      Derives (.path (lead e.flat es)) (kinds ++ .slash :: ts) rest) : Readable e kinds where
  step hs := absurd (hstep.symm.trans hs) (by decide)
  path _ _ := hpath
  signed _ rest hroot := .unsigned (.member (hpath rest hroot))
  leads _ hroot := hleads hroot

theorem readable_negate {operand : Expr} (hstep : operand.isStep = false)
    (h : Readable operand kinds) :
    Readable (negate operand) (.minus :: .leftParen :: (kinds ++ [.rightParen])) where
  step hs := by cases hs
  path _ hneg := by cases hneg
  signed _ rest _ := by
    have hwhole : Derives (.whole operand.flat) (kinds ++ .rightParen :: rest)
        (.rightParen :: rest) := h.whole hstep rfl
    simp only [List.cons_append, List.append_assoc, flat]
    exact .minus (.unsigned (.member (.valuePath (.plain (.parenthesised hwhole)))))
  leads hneg := by cases hneg

/-- A minus sign in front of a number needs no parentheses. -/
theorem readable_negative (value : Number) :
    Readable (negate (number value)) [.minus, .number value] where
  step hs := by cases hs
  path _ hneg := by cases hneg
  signed _ rest _ := .minus (.unsigned (.member (.valuePath (.plain .number))))
  leads hneg := by cases hneg

theorem lead_lead (e : Expr) (es more : List Expr) :
    lead (lead e es) more = lead e (es ++ more) := by
  cases e <;> simp [lead]

end

end Expr

end TreeQuery
