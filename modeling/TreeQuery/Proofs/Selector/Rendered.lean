import TreeQuery.Proofs.Expr.Clear
import TreeQuery.Proofs.Selector.Lexed
import TreeQuery.Selector.Expression

/-!
The text of what a selector becomes, read back. A selector that is read from a text gives a clear
expression, as long as its names are names in expressions, too: its texts lack one of the quotes,
its integers are small, and its conditions and chains are paths, calls and operations.
-/
namespace TreeQuery.Selector

open TreeQuery.Expr

/-! ## Names -/

def NamePart.names : NamePart → List String
  | any => []
  | name text => [text]

/-- The names in a name with an optional prefix. -/
def NamePart.bothNames (pfx : Option NamePart) (name : NamePart) : List String :=
  pfx.elim [] NamePart.names ++ name.names

def TypeSelector.names (selector : TypeSelector) : List String :=
  NamePart.bothNames selector.pfx selector.name

def AttrSelector.names (selector : AttrSelector) : List String :=
  NamePart.bothNames selector.pfx (.name selector.name)

mutual

/-- The names of types and attributes and their prefixes, at every depth. -/
def Filter.names : Filter → List String
  | attr selector => selector.names
  | not element filters => element.elim [] TypeSelector.names ++ Filter.allNames filters
  | _ => []

def Filter.allNames : List Filter → List String
  | [] => []
  | f :: fs => f.names ++ Filter.allNames fs

end

def Compound.names (compound : Compound) : List String :=
  compound.element.elim [] TypeSelector.names ++ Filter.allNames compound.filters

def Complex.names (selector : Complex) : List String :=
  selector.head.names ++ selector.tail.flatMap fun next => next.2.names

def names (selectors : SelectorList) : List String := selectors.flatMap Complex.names

/-- A text that the lexer of expressions reads as one name. -/
def ReadAsName (text : String) : Prop := (Tokens.ofText text).kinds = [.name text]

theorem ReadAsName.isName {text : String} (h : ReadAsName text) : IsName text := by
  have hfitting := (Tokens.written_ofText text).fitting
  rw [h] at hfitting
  exact hfitting (.name text) (List.mem_singleton.mpr rfl)

/-! ## Building blocks -/

theorem functionName_title (f : Function) : FunctionName f.title := by
  have htitles : ∀ f ∈ Function.all, startsName f.title.toList = true ∧
      f.title.toList.all isNameChar = true ∧ f.title ∉ nodeTypeNames := by decide +kernel
  obtain ⟨hstart, hchars, htype⟩ := htitles f f.mem_all
  refine ⟨.name f.title, .name f.title, ⟨hstart, List.all_eq_true.mp hchars⟩, ?_⟩
  rintro text heq
  cases heq
  exact htype

/-- A call of a core function. -/
theorem operand_core (f : Function) {args : List Expr} (h : ∀ e ∈ args, e.Operand) :
    (call f.title args).Operand := operand_call (functionName_title f) h

theorem operand_core_one (f : Function) {arg : Expr} (h : arg.Operand) :
    (call f.title [arg]).Operand := operand_core f (List.forall_mem_singleton.mpr h)

theorem operand_core_two (f : Function) {left right : Expr} (hleft : left.Operand)
    (hright : right.Operand) : (call f.title [left, right]).Operand :=
  operand_core f (forall_mem_pair.mpr ⟨hleft, hright⟩)

theorem operand_stepPath (axis : Axis) {test : NodeTest} (htest : test.Clear) :
    (stepPath axis test).Operand :=
  operand_relative (List.cons_ne_nil _ _) (List.forall_mem_singleton.mpr
    ⟨rfl, clear_step htest (List.forall_mem_nil _)⟩)

theorem operand_integer {i : Int} (hi : i.natAbs ≤ Nat.pow 2 53) : (integer i).Operand :=
  operand_ofInt hi

theorem clear_test {pfx : Option NamePart} {name : NamePart}
    (h : ∀ text ∈ NamePart.bothNames pfx name, IsName text) : (NamePart.test pfx name).Clear := by
  cases name with
  | any =>
      rcases pfx with _ | _ | text
      · exact ⟨trivial, trivial⟩
      · exact ⟨trivial, trivial⟩
      · exact ⟨h text (by simp [NamePart.bothNames, NamePart.names]), trivial⟩
  | name localPart =>
      have hlocal : IsName localPart := h localPart (by simp [NamePart.bothNames, NamePart.names])
      rcases pfx with _ | _ | text
      · exact ⟨hlocal, trivial⟩
      · exact ⟨hlocal, trivial⟩
      · exact ⟨⟨h text (by simp [NamePart.bothNames, NamePart.names]), hlocal⟩, trivial⟩

theorem clear_elementTest {element : Option TypeSelector}
    (h : ∀ text ∈ element.elim [] TypeSelector.names, IsName text) :
    (elementTest element).Clear := by
  cases element with
  | none => exact ⟨trivial, trivial⟩
  | some selector => exact clear_test h

theorem clear_any : NodeTest.any.Clear := ⟨trivial, trivial⟩

/-! ## Attributes -/

/-- A text that lacks one of the quotes. -/
abbrev Quotable (text : String) : Prop := '\"' ∉ text.toList ∨ '\x27' ∉ text.toList

theorem IsIdent.quotable {text : String} (h : IsIdent text) : Quotable text := by
  refine .inl fun hmem => ?_
  have hchar := h.2 _ hmem
  revert hchar
  decide

theorem isName_class : IsName "class" := ⟨by decide, List.all_eq_true.mp (by decide)⟩

theorem isName_id : IsName "id" := ⟨by decide, List.all_eq_true.mp (by decide)⟩

theorem operand_attrEquals {name text : String} (hname : IsName name) (htext : Quotable text) :
    (attrEquals name text).Operand :=
  operand_binary (operand_stepPath .attributes ⟨hname, trivial⟩) (operand_string htext)

theorem AttrOp.operand_condition {attr : Expr} {text : String} (op : AttrOp) (hattr : attr.Operand)
    (htext : Quotable text) : (op.condition attr text).Operand := by
  have hstring : (string text).Operand := operand_string htext
  have hblank : (string " ").Operand := operand_string (.inl (by decide))
  have hhyphen : (string "-").Operand := operand_string (.inl (by decide))
  cases op with
  | equals => exact operand_binary hattr hstring
  | includes =>
      have hspaced : ∀ {e : Expr}, e.Operand →
          (call "concat" [string " ", e, string " "]).Operand := fun he =>
        operand_core .concat (List.forall_mem_cons.mpr
          ⟨hblank, forall_mem_pair.mpr ⟨he, hblank⟩⟩)
      exact operand_core_two .contains (hspaced hattr) (hspaced hstring)
  | dashMatch =>
      have hstart : (call "concat" [string text, string "-"]).Operand :=
        operand_core_two .concat hstring hhyphen
      exact operand_binary (operand_binary hattr hstring)
        (operand_core_two .startsWith hattr hstart)
  | startsWith => exact operand_core_two .startsWith hattr hstring
  | endsWith =>
      have hlength : ∀ {e : Expr}, e.Operand → (call "string-length" [e]).Operand := fun he =>
        operand_core_one .stringLength he
      have hlengths : (binary .sub (call "string-length" [attr])
          (call "string-length" [string text])).Operand :=
        operand_binary (hlength hattr) (hlength hstring)
      have hstart : (binary .add (binary .sub (call "string-length" [attr])
          (call "string-length" [string text])) (integer 1)).Operand :=
        operand_binary hlengths (operand_integer (by decide))
      exact operand_binary (operand_core_two .substring hattr hstart) hstring
  | contains => exact operand_core_two .contains hattr hstring

theorem AttrSelector.operand_condition {selector : AttrSelector} (h : selector.Lexed)
    (hnames : ∀ text ∈ selector.names, IsName text) : selector.condition.Operand := by
  have hattr := operand_stepPath .attributes (clear_test hnames)
  rw [AttrSelector.condition]
  cases hcomparison : selector.comparison with
  | none => exact hattr
  | some comparison =>
      obtain ⟨op, text⟩ := comparison
      exact AttrOp.operand_condition op hattr ((h op text hcomparison).elim id IsIdent.quotable)

/-! ## Positions -/

section
variable {test : NodeTest} {axis : Axis}

theorem operand_countOf (axis : Axis) (htest : test.Clear) : (countOf axis test).Operand :=
  operand_core_one .count (operand_stepPath axis htest)

theorem operand_noneOn (axis : Axis) (htest : test.Clear) : (noneOn axis test).Operand :=
  operand_binary (operand_countOf axis htest) (operand_integer (by decide))

theorem operand_noneBeside (htest : test.Clear) : (noneBeside test).Operand :=
  operand_binary (operand_noneOn _ htest) (operand_noneOn _ htest)

theorem operand_positionOn (axis : Axis) (htest : test.Clear) : (positionOn axis test).Operand :=
  operand_binary (operand_countOf axis htest) (operand_integer (by decide))

theorem Nth.operand_condition {series : Nth} {position : Expr} (hposition : position.Operand)
    (ha : inRange series.a = true) (hb : inRange series.b = true) :
    (series.condition position).Operand := by
  have hfirst : (integer series.b).Operand := operand_integer (natAbs_le_of_inRange hb)
  have hstep : (integer series.a.natAbs).Operand :=
    operand_integer (by rw [Int.natAbs_natCast]; exact natAbs_le_of_inRange ha)
  have hback : (integer (-series.b)).Operand :=
    operand_integer (by rw [Int.natAbs_neg]; exact natAbs_le_of_inRange hb)
  have hdistance : (if series.b < 0 then binary .add position (integer (-series.b))
      else binary .sub position (integer series.b)).Operand := by
    split
    · exact operand_binary hposition hback
    · exact operand_binary hposition hfirst
  rw [condition]
  split
  · exact operand_binary hposition hfirst
  · exact operand_binary (operand_binary hposition hfirst)
      (operand_binary (operand_binary hdistance hstep) (operand_integer (by decide)))

theorem Structural.operand_condition {s : Structural} (htest : test.Clear) (h : s.Lexed) :
    (s.condition test).Operand := by
  cases s with
  | root => exact operand_core_one .not (operand_stepPath .parent clear_any)
  | empty => exact operand_core_one .not (operand_stepPath .child ⟨trivial, trivial⟩)
  | firstChild | lastChild => exact operand_noneOn _ clear_any
  | onlyChild => exact operand_noneBeside clear_any
  | firstOfType | lastOfType => exact operand_noneOn _ htest
  | onlyOfType => exact operand_noneBeside htest
  | nth kind series =>
      obtain ⟨ha, hb⟩ := h
      cases kind with
      | child | lastChild => exact Nth.operand_condition (operand_positionOn _ clear_any) ha hb
      | ofType | lastOfType => exact Nth.operand_condition (operand_positionOn _ htest) ha hb

end

/-! ## Compounds and chains -/

mutual

theorem Filter.operand_condition {test : NodeTest} (htest : test.Clear) :
    (f : Filter) → f.Lexed → (∀ text ∈ f.names, IsName text) → (f.condition test).Operand
  | .className text, h, _ => by
      simp only [Filter.Lexed] at h
      simp only [Filter.condition]
      exact operand_attrEquals isName_class h.quotable
  | .id text, h, _ => by
      simp only [Filter.Lexed] at h
      simp only [Filter.condition]
      exact operand_attrEquals isName_id h.quotable
  | .attr selector, h, hnames => by
      simp only [Filter.Lexed] at h
      simp only [Filter.names] at hnames
      simp only [Filter.condition]
      exact AttrSelector.operand_condition h hnames
  | .structural s, h, _ => by
      simp only [Filter.Lexed] at h
      simp only [Filter.condition]
      exact Structural.operand_condition htest h
  | .not element filters, h, hnames => by
      simp only [Filter.Lexed] at h
      simp only [Filter.names, List.forall_mem_append] at hnames
      have helement := clear_elementTest hnames.1
      have hfilters := Filter.operand_conditions helement filters h hnames.2
      have hpath : (relative [step .self (elementTest element)
          (Filter.conditions (elementTest element) filters)]).Operand :=
        operand_relative (List.cons_ne_nil _ _)
          (List.forall_mem_singleton.mpr ⟨rfl, clear_step helement hfilters⟩)
      simp only [Filter.condition]
      exact operand_core_one .not hpath

theorem Filter.operand_conditions {test : NodeTest} (htest : test.Clear) :
    (fs : List Filter) → Filter.AllLexed fs → (∀ text ∈ Filter.allNames fs, IsName text) →
      ∀ e ∈ Filter.conditions test fs, e.Operand
  | [], _, _ => by simp [Filter.conditions]
  | f :: fs, h, hnames => by
      simp only [Filter.AllLexed] at h
      simp only [Filter.allNames, List.forall_mem_append] at hnames
      simp only [Filter.conditions, List.forall_mem_cons]
      exact ⟨Filter.operand_condition htest f h.1 hnames.1,
        Filter.operand_conditions htest fs h.2 hnames.2⟩

end

theorem Compound.clear_step {compound : Compound} (axis : Axis) (h : compound.Lexed)
    (hnames : ∀ text ∈ compound.names, IsName text) :
    (compound.step axis).isStep = true ∧ (compound.step axis).Clear := by
  rw [Compound.names, List.forall_mem_append] at hnames
  have helement := clear_elementTest hnames.1
  exact ⟨rfl, Expr.clear_step helement (Filter.operand_conditions helement _ h hnames.2)⟩

theorem Combinator.clear_steps (combinator : Combinator) {compound : Compound}
    (h : compound.Lexed) (hnames : ∀ text ∈ compound.names, IsName text) :
    ∀ part ∈ combinator.steps compound, part.isStep = true ∧ part.Clear := by
  have hstep := Compound.clear_step .child h hnames
  cases combinator with
  | child => exact List.forall_mem_singleton.mpr hstep
  | descendant =>
      exact forall_mem_pair.mpr ⟨⟨rfl, Expr.clear_step clear_any (List.forall_mem_nil _)⟩, hstep⟩

theorem Complex.operand_toExpr {selector : Complex} (h : selector.Lexed)
    (hnames : ∀ text ∈ selector.names, IsName text) : selector.toExpr.Operand := by
  rw [Complex.names, List.forall_mem_append] at hnames
  refine operand_relative (List.cons_ne_nil _ _) (List.forall_mem_cons.mpr
    ⟨Compound.clear_step .child h.1 hnames.1, fun part hp => ?_⟩)
  obtain ⟨⟨combinator, compound⟩, hnext, hp⟩ := List.mem_flatMap.mp hp
  have hcompound : ∀ text ∈ compound.names, IsName text := fun text htext =>
    hnames.2 text (List.mem_flatMap.mpr ⟨_, hnext, htext⟩)
  exact Combinator.clear_steps combinator (h.2 _ hnext) hcompound part hp

/-! ## Lists -/

/-- An operand that no minus sign stands in front of. -/
def Selecting (e : Expr) : Prop := e.Operand ∧ e.unsigned.isNegation = false

theorem selecting_foldl_union {e : Expr} {es : List Expr} (h : Selecting e)
    (hes : ∀ e ∈ es, Selecting e) : Selecting (es.foldl Expr.union e) := by
  induction es generalizing e with
  | nil => exact h
  | cons e' es ih =>
      obtain ⟨he', hes⟩ := List.forall_mem_cons.mp hes
      exact ih ⟨operand_union h.1 he'.1 h.2 he'.2, rfl⟩ hes

theorem operand_toExpr {selectors : SelectorList} (hne : selectors ≠ [])
    (h : ∀ selector ∈ selectors, selector.Lexed)
    (hnames : ∀ text ∈ names selectors, IsName text) : (toExpr selectors).Operand := by
  have hall : ∀ selector ∈ selectors, Selecting selector.toExpr := fun selector hselector =>
    ⟨Complex.operand_toExpr (h selector hselector) fun text htext =>
      hnames text (List.mem_flatMap.mpr ⟨selector, hselector, htext⟩), rfl⟩
  cases selectors with
  | nil => exact absurd rfl hne
  | cons selector selectors =>
      obtain ⟨hselector, hselectors⟩ := List.forall_mem_cons.mp hall
      exact (selecting_foldl_union hselector (List.forall_mem_map.mpr hselectors)).1

/-- The text of what a selector becomes is read as just that, except that a negative number is read
as the unary minus of its absolute value. The names in the selector must be names in expressions. -/
theorem parse_render_toExpr {text : String} {selectors : SelectorList}
    (h : parse text = .ok selectors) (hnames : ∀ name ∈ names selectors, ReadAsName name) :
    ∃ e, parseToExpr text = .ok e ∧ Expr.parse e.render = .ok e.unsigned := by
  obtain ⟨hne, hlexed⟩ := lexed_of_parse h
  have hoperand := operand_toExpr hne hlexed fun text htext => (hnames text htext).isName
  refine ⟨toExpr selectors, ?_, hoperand.clear.parse_render hoperand.isStep⟩
  rw [parseToExpr, h]
  rfl

/-- Names that spell a node test and an operator, a negative position and a union. -/
theorem parse_render_toExpr_of_operator :
    ∃ selectors, parse "s|text:nth-child(-3) > *:not([and='q']), .x" = .ok selectors ∧
      names selectors = ["s", "text", "and"] ∧ (∀ name ∈ names selectors, ReadAsName name) ∧
      ∃ e, parseToExpr "s|text:nth-child(-3) > *:not([and='q']), .x" = .ok e ∧
        Expr.parse e.render = .ok e.unsigned := by
  have hparse : parse "s|text:nth-child(-3) > *:not([and='q']), .x" = .ok
      [⟨⟨some ⟨some (.name "s"), .name "text"⟩, [.structural (.nth .child ⟨0, -3⟩)]⟩,
        [(.child, ⟨some ⟨none, .any⟩, [.not none [.attr ⟨none, "and", some (.equals, "q")⟩]]⟩)]⟩,
      ⟨⟨none, [.className "x"]⟩, []⟩] := by with_unfolding_all rfl
  have hread : ∀ name ∈ ["s", "text", "and"], ReadAsName name := by
    simp only [List.forall_mem_cons, ReadAsName]
    exact ⟨by decide +kernel, by decide +kernel, by decide +kernel, List.forall_mem_nil _⟩
  exact ⟨_, hparse, by rfl, hread, parse_render_toExpr hparse hread⟩

end TreeQuery.Selector
