import TreeQuery.Expr.Parser

/-!
The grammar of expressions over tokens. A phrase is derived from tokens at the head of a list, and
what follows it is left over. Chains of operands group to the left. No parser has a part in this:
the one place where a phrase depends on what follows is the slash by itself, which stands where no
step can start.
-/
namespace TreeQuery.Expr

/-! ## Operators -/

/-- The levels of operators between two operands, apart from the union. -/
inductive Level where
  | or | and | equality | order | sum | product
deriving DecidableEq

def Level.operators : Level → List (TokenKind × BinaryOp)
  | or => [(.or, .or)]
  | and => [(.and, .and)]
  | equality => [(.eq, .eq), (.notEq, .ne)]
  | order => [(.lt, .lt), (.ltEq, .le), (.gt, .gt), (.gtEq, .ge)]
  | sum => [(.plus, .add), (.minus, .sub)]
  | product => [(.star, .mul), (.div, .div), (.mod, .mod)]

/-! ## Phrases -/

/-- What tokens can be read as. -/
inductive Phrase where
  /-- Operands with operators of one level or tighter ones. -/
  | operation (level : Level) (e : Expr)
  /-- Minus signs and what they stand in front of. -/
  | signed (e : Expr)
  | union (e : Expr)
  | path (e : Expr)
  | steps (es : List Expr)
  | step (e : Expr)
  | predicates (es : List Expr)
  /-- A literal, a variable, a call or an expression between parentheses, with predicates. -/
  | value (e : Expr)
  | primary (e : Expr)
  /-- At least one argument. -/
  | arguments (es : List Expr)

/-- What stands between the operators of a level. -/
def Level.operand (e : Expr) : Level → Phrase
  | or => .operation .and e
  | and => .operation .equality e
  | equality => .operation .order e
  | order => .operation .sum e
  | sum => .operation .product e
  | product => .signed e

/-- A whole expression. -/
abbrev Phrase.whole (e : Expr) : Phrase := .operation .or e

/-- The tokens in front of a node test that name an axis. -/
inductive AxisTokens : Axis → List TokenKind → Prop where
  | child : AxisTokens .child []
  | attributes : AxisTokens .attributes [.atSign]
  | named (axis : Axis) : AxisTokens axis [.axis axis.name, .doubleColon]

/-- The node tests that are written as a name with empty parentheses. -/
def typeTests : List (String × NodeTest) :=
  [("node", .node), ("text", .text), ("comment", .comment), ("cdata", .cdata),
    ("processing-instruction", .instruction none)]

inductive TestTokens : NodeTest → List TokenKind → Prop where
  | any : TestTokens .any [.star]
  | name (text : String) : TestTokens (.name text) [.name text]
  | anyPrefixed : TestTokens .any [.nameTest "*" "*"]
  | anyNamed {localPart : String} (hlocal : localPart ≠ "*") :
      TestTokens (.anyNamed localPart) [.nameTest "*" localPart]
  | anyIn {pfx : String} (hpfx : pfx ≠ "*") : TestTokens (.anyIn pfx) [.nameTest pfx "*"]
  | qualified {pfx localPart : String} (hpfx : pfx ≠ "*") (hlocal : localPart ≠ "*") :
      TestTokens (.qualified pfx localPart) [.nameTest pfx localPart]
  | type {text : String} {test : NodeTest} (h : (text, test) ∈ typeTests) :
      TestTokens test [.nodeType text, .leftParen, .rightParen]
  | target (text : String) : TestTokens (.instruction (some text))
      [.nodeType "processing-instruction", .leftParen, .string text, .rightParen]

/-- A name in front of a parenthesis is the name of a function. -/
inductive FunctionToken : String → TokenKind → Prop where
  | name (text : String) : FunctionToken text (.name text)
  | prefixed (pfx localPart : String) :
      FunctionToken (pfx ++ ":" ++ localPart) (.nameTest pfx localPart)

/-- Whether a step can start with the tokens at the head of a list. -/
def startsStep : List TokenKind → Bool
  | .name _ :: rest | .nameTest _ _ :: rest => rest.head? != some .leftParen
  | .star :: _ | .atSign :: _ | .dot :: _ | .doubleDot :: _ | .axis _ :: _
  | .nodeType _ :: _ => true
  | _ => false

/-- The phrase is read from the tokens in front of the rest. -/
inductive Derives : Phrase → List TokenKind → List TokenKind → Prop where
  | operand {level : Level} {e : Expr} {ts rest : List TokenKind}
      (h : Derives (level.operand e) ts rest) : Derives (.operation level e) ts rest
  | operation {level : Level} {left right : Expr} {kind : TokenKind} {op : BinaryOp}
      {ts mid rest : List TokenKind} (hleft : Derives (.operation level left) ts (kind :: mid))
      (hop : (kind, op) ∈ level.operators) (hright : Derives (level.operand right) mid rest) :
      Derives (.operation level (binary op left right)) ts rest
  | unsigned {e : Expr} {ts rest : List TokenKind} (h : Derives (.union e) ts rest) :
      Derives (.signed e) ts rest
  | minus {e : Expr} {ts rest : List TokenKind} (h : Derives (.signed e) ts rest) :
      Derives (.signed (negate e)) (.minus :: ts) rest
  | member {e : Expr} {ts rest : List TokenKind} (h : Derives (.path e) ts rest) :
      Derives (.union e) ts rest
  | union {left right : Expr} {ts mid rest : List TokenKind}
      (hleft : Derives (.union left) ts (.pipe :: mid)) (hright : Derives (.path right) mid rest) :
      Derives (.union (union left right)) ts rest
  | root {rest : List TokenKind} (h : startsStep rest = false) :
      Derives (.path (absolute [])) (.slash :: rest) rest
  | absolute {es : List Expr} {ts rest : List TokenKind} (h : Derives (.steps es) ts rest) :
      Derives (.path (absolute es)) (.slash :: ts) rest
  | absoluteAnyDepth {es : List Expr} {ts rest : List TokenKind}
      (h : Derives (.steps es) ts rest) :
      Derives (.path (absolute (anyDepth :: es))) (.doubleSlash :: ts) rest
  | relative {es : List Expr} {ts rest : List TokenKind} (h : Derives (.steps es) ts rest) :
      Derives (.path (relative es)) ts rest
  | valuePath {e : Expr} {ts rest : List TokenKind} (h : Derives (.value e) ts rest) :
      Derives (.path e) ts rest
  | valueSteps {e : Expr} {es : List Expr} {ts mid rest : List TokenKind}
      (h : Derives (.value e) ts (.slash :: mid)) (hsteps : Derives (.steps es) mid rest) :
      Derives (.path (relative (e :: es))) ts rest
  | valueAnyDepth {e : Expr} {es : List Expr} {ts mid rest : List TokenKind}
      (h : Derives (.value e) ts (.doubleSlash :: mid)) (hsteps : Derives (.steps es) mid rest) :
      Derives (.path (relative (e :: anyDepth :: es))) ts rest
  | lastStep {e : Expr} {ts rest : List TokenKind} (h : Derives (.step e) ts rest) :
      Derives (.steps [e]) ts rest
  | stepSlash {e : Expr} {es : List Expr} {ts mid rest : List TokenKind}
      (h : Derives (.step e) ts (.slash :: mid)) (hsteps : Derives (.steps es) mid rest) :
      Derives (.steps (e :: es)) ts rest
  | stepAnyDepth {e : Expr} {es : List Expr} {ts mid rest : List TokenKind}
      (h : Derives (.step e) ts (.doubleSlash :: mid)) (hsteps : Derives (.steps es) mid rest) :
      Derives (.steps (e :: anyDepth :: es)) ts rest
  | dot {rest : List TokenKind} : Derives (.step (step .self .node [])) (.dot :: rest) rest
  | doubleDot {rest : List TokenKind} :
      Derives (.step (step .parent .node [])) (.doubleDot :: rest) rest
  | step {axis : Axis} {test : NodeTest} {es : List Expr} {as bs ts rest : List TokenKind}
      (haxis : AxisTokens axis as) (htest : TestTokens test bs)
      (hpredicates : Derives (.predicates es) ts rest) :
      Derives (.step (step axis test es)) (as ++ (bs ++ ts)) rest
  | noPredicate {rest : List TokenKind} : Derives (.predicates []) rest rest
  | predicate {e : Expr} {es : List Expr} {ts mid rest : List TokenKind}
      (h : Derives (.whole e) ts (.rightBracket :: mid))
      (hmore : Derives (.predicates es) mid rest) :
      Derives (.predicates (e :: es)) (.leftBracket :: ts) rest
  | plain {e : Expr} {ts rest : List TokenKind} (h : Derives (.primary e) ts rest) :
      Derives (.value e) ts rest
  | filter {e : Expr} {es : List Expr} {ts mid rest : List TokenKind}
      (h : Derives (.primary e) ts mid) (hpredicates : Derives (.predicates es) mid rest)
      (hne : es ≠ []) : Derives (.value (filter e es)) ts rest
  | number {value : Number} {rest : List TokenKind} :
      Derives (.primary (number value)) (.number value :: rest) rest
  | string {text : String} {rest : List TokenKind} :
      Derives (.primary (string text)) (.string text :: rest) rest
  | reference {name : String} {rest : List TokenKind} :
      Derives (.primary (reference name)) (.reference name :: rest) rest
  | parenthesised {e : Expr} {ts rest : List TokenKind}
      (h : Derives (.whole e) ts (.rightParen :: rest)) :
      Derives (.primary e) (.leftParen :: ts) rest
  | emptyCall {name : String} {kind : TokenKind} {rest : List TokenKind}
      (hname : FunctionToken name kind) :
      Derives (.primary (call name [])) (kind :: .leftParen :: .rightParen :: rest) rest
  | call {name : String} {kind : TokenKind} {args : List Expr} {ts rest : List TokenKind}
      (hname : FunctionToken name kind)
      (hargs : Derives (.arguments args) ts (.rightParen :: rest)) :
      Derives (.primary (call name args)) (kind :: .leftParen :: ts) rest
  | lastArgument {e : Expr} {ts rest : List TokenKind} (h : Derives (.whole e) ts rest) :
      Derives (.arguments [e]) ts rest
  | argument {e : Expr} {es : List Expr} {ts mid rest : List TokenKind}
      (h : Derives (.whole e) ts (.comma :: mid)) (hmore : Derives (.arguments es) mid rest) :
      Derives (.arguments (e :: es)) ts rest

theorem Derives.of_noPredicate {ts rest : List TokenKind} (h : Derives (.predicates []) ts rest) :
    ts = rest := by
  cases h
  rfl

/-- What is left over is the end of the tokens. -/
theorem Derives.suffix {p : Phrase} {ts rest : List TokenKind} (h : Derives p ts rest) :
    rest <:+ ts := by
  induction h with
  | operand _ ih | unsigned _ ih | member _ ih | relative _ ih | valuePath _ ih | lastStep _ ih
  | plain _ ih | lastArgument _ ih => exact ih
  | minus _ ih | absolute _ ih | absoluteAnyDepth _ ih => exact ih.trans (List.suffix_cons _ _)
  | operation _ _ _ ih ihmore | union _ _ ih ihmore | valueSteps _ _ ih ihmore
  | valueAnyDepth _ _ ih ihmore | stepSlash _ _ ih ihmore | stepAnyDepth _ _ ih ihmore
  | argument _ _ ih ihmore => exact ihmore.trans ((List.suffix_cons _ _).trans ih)
  | root | dot | doubleDot | number | string | reference => exact List.suffix_cons _ _
  | step _ _ _ ih =>
      exact ih.trans ((List.suffix_append _ _).trans (List.suffix_append _ _))
  | noPredicate => exact List.suffix_refl _
  | predicate _ _ ih ihmore =>
      exact ihmore.trans ((List.suffix_cons _ _).trans (ih.trans (List.suffix_cons _ _)))
  | filter _ _ _ ih ihmore => exact ihmore.trans ih
  | parenthesised _ ih => exact ((List.suffix_cons _ _).trans ih).trans (List.suffix_cons _ _)
  | emptyCall => exact ⟨[_, _, _], rfl⟩
  | call _ _ ih =>
      exact ((List.suffix_cons _ _).trans ih).trans
        ((List.suffix_cons _ _).trans (List.suffix_cons _ _))

/-! ## The first token of a phrase -/

/-- Tokens with which a path can start. -/
def TokenKind.startsPath : TokenKind → Bool
  | slash | doubleSlash | dot | doubleDot | atSign | star | name _ | nameTest _ _ | nodeType _
  | axis _ | number _ | string _ | reference _ | leftParen => true
  | _ => false

/-- Tokens with which a phrase can start: paths, and all that may have a minus sign in front. -/
def Phrase.startsWith (p : Phrase) (kind : TokenKind) : Bool :=
  match p with
  | operation _ _ | signed _ | arguments _ => kind.startsPath || kind == .minus
  | union _ | path _ | steps _ | step _ | value _ | primary _ => kind.startsPath
  | predicates _ => true

theorem AxisTokens.append_test {axis : Axis} {test : NodeTest} {as bs : List TokenKind}
    (haxis : AxisTokens axis as) (htest : TestTokens test bs) :
    ∃ kind more, as ++ bs = kind :: more ∧ kind.startsPath = true := by
  cases haxis with
  | child => cases htest <;> exact ⟨_, _, rfl, rfl⟩
  | attributes | named => exact ⟨_, _, rfl, rfl⟩

/-- Predicates aside, a phrase starts with a token that fits it. -/
theorem Derives.head {p : Phrase} {ts rest : List TokenKind} (h : Derives p ts rest) :
    (∃ kind mid, ts = kind :: mid ∧ p.startsWith kind = true) ∨ ∃ es, p = .predicates es := by
  induction h with
  | @operand level _ _ _ _ ih =>
      obtain ⟨kind, mid, rfl, hkind⟩ | ⟨_, hp⟩ := ih
      · cases level <;> exact .inl ⟨kind, mid, rfl, hkind⟩
      · cases level <;> cases hp
  | operation _ _ _ ih _ | union _ _ ih _ | valueSteps _ _ ih _ | valueAnyDepth _ _ ih _
  | stepSlash _ _ ih _ | stepAnyDepth _ _ ih _ | argument _ _ ih _ | filter _ _ _ ih _ =>
      obtain ⟨kind, mid, rfl, hkind⟩ | ⟨_, hp⟩ := ih
      · exact .inl ⟨kind, mid, rfl, hkind⟩
      · cases hp
  | unsigned _ ih | member _ ih | relative _ ih | valuePath _ ih | lastStep _ ih | plain _ ih
  | lastArgument _ ih =>
      obtain ⟨kind, mid, rfl, hkind⟩ | ⟨_, hp⟩ := ih
      · refine .inl ⟨kind, mid, rfl, ?_⟩
        simp only [Phrase.startsWith, Bool.or_eq_true] at hkind ⊢
        first
          | exact hkind
          | exact .inl hkind
      · cases hp
  | minus | root | absolute | absoluteAnyDepth | dot | doubleDot | number | string | reference
  | parenthesised => exact .inl ⟨_, _, rfl, rfl⟩
  | step haxis htest =>
      obtain ⟨kind, more, heq, hkind⟩ := haxis.append_test htest
      exact .inl ⟨kind, _, by rw [← List.append_assoc, heq, List.cons_append], hkind⟩
  | noPredicate | predicate => exact .inr ⟨_, rfl⟩
  | emptyCall hname | call hname => exact .inl ⟨_, _, rfl, by cases hname <;> rfl⟩

end TreeQuery.Expr
