import TreeQuery.Proofs.Selector.Lexing

/-!
Names and attributes are read again from their texts. A text is cut into tokens whatever closes it,
and a parser takes the tokens of its part whatever comes behind them: what closes is said of the
characters, and what comes behind of the tokens.
-/
namespace TreeQuery.Selector

open TreeQuery.Text

/-! ## What is in front -/

section
variable {α : Type} {p q : α → Bool} {xs ys : List α}

/-- The first element, if there is one, has a property. -/
def Heads (p : α → Bool) (xs : List α) : Prop := ∀ x ∈ xs.head?, p x = true

/-- There is a first element, and it has a property. -/
def Opens (p : α → Bool) (xs : List α) : Prop := ∃ x more, xs = x :: more ∧ p x = true

theorem opens_cons {x : α} (h : p x = true) (xs : List α) : Opens p (x :: xs) := ⟨x, xs, rfl, h⟩

theorem heads_cons {x : α} (h : p x = true) (xs : List α) : Heads p (x :: xs) := by
  simpa [Heads] using h

theorem Heads.imp (h : Heads p xs) (himp : ∀ x, p x = true → q x = true) : Heads q xs :=
  fun x hx => himp x (h x hx)

theorem Opens.imp (h : Opens p xs) (himp : ∀ x, p x = true → q x = true) : Opens q xs := by
  obtain ⟨x, more, rfl, hx⟩ := h
  exact opens_cons (himp x hx) more

theorem Opens.append (h : Opens p xs) (ys : List α) : Opens p (xs ++ ys) := by
  obtain ⟨x, more, rfl, hx⟩ := h
  exact opens_cons hx (more ++ ys)

theorem Opens.heads (h : Opens p xs) : Heads p xs := by
  obtain ⟨x, more, rfl, hx⟩ := h
  exact heads_cons hx more

theorem Opens.length_pos (h : Opens p xs) : 0 < xs.length := by
  obtain ⟨x, more, rfl, -⟩ := h
  exact Nat.succ_pos _

theorem Heads.of_beq [BEq α] [LawfulBEq α] {x : α} (h : Heads (· == x) xs) (hp : p x = true) :
    Heads p xs := h.imp fun y hy => by rwa [beq_iff_eq.mp hy]

theorem Heads.ne [BEq α] [LawfulBEq α] {x : α} (h : Heads p xs) (hx : p x = false) :
    Heads (· != x) xs :=
  h.imp fun y hy => by
    rw [bne_iff_ne]
    rintro rfl
    exact Bool.false_ne_true (hx.symm.trans hy)

theorem heads_append (hxs : ∀ x ∈ xs, p x = true) (hys : Heads p ys) : Heads p (xs ++ ys) := by
  cases xs with
  | nil => exact hys
  | cons x xs => exact heads_cons (hxs x List.mem_cons_self) _

theorem opens_append (hxs : ∀ x ∈ xs, p x = true) (hys : Opens p ys) : Opens p (xs ++ ys) := by
  cases xs with
  | nil => exact hys
  | cons x xs => exact opens_cons (hxs x List.mem_cons_self) _

end

/-! ### Characters -/

def isFilterStart (c : Char) : Bool := ['.', '#', '[', ':'].contains c

/-- A character that may stand behind a name or a filter. -/
def isCloser (c : Char) : Bool :=
  isFilterStart c || ['>', ',', ')'].contains c || (isBlank c && decide (c.toNat < 128))

abbrev Closes (rest : List Char) : Prop := Heads isCloser rest

theorem Closes.stops {rest : List Char} (h : Closes rest) {p : Char → Bool}
    (hp : ∀ code < 128, isCloser (Char.ofNat code) = true → p (Char.ofNat code) = false) :
    Stops p rest := by
  intro c hc
  have hcloser := h c hc
  have hascii : c.toNat < 128 := by
    simp only [isCloser, isFilterStart, List.contains_iff_mem, List.mem_cons, List.not_mem_nil,
      or_false, Bool.or_eq_true, Bool.and_eq_true, decide_eq_true_eq] at hcloser
    rcases hcloser with ((rfl | rfl | rfl | rfl) | (rfl | rfl | rfl)) | ⟨-, hascii⟩
    all_goals first | decide | exact hascii
  exact @of_ascii (fun c => isCloser c = true → p c = false) hp c hascii hcloser

theorem Closes.stops_name {rest : List Char} (h : Closes rest) : Stops goesOn rest :=
  h.stops (by decide +kernel)

theorem Closes.stops_eq {rest : List Char} (h : Closes rest) : Stops (· == '=') rest :=
  h.stops (by decide +kernel)

theorem Blanks.isCloser {cs : List Char} (h : Blanks cs) : ∀ c ∈ cs, isCloser c = true :=
  fun c hc => by simp [Selector.isCloser, h c hc]

theorem Blanks.closes {cs rest : List Char} (h : Blanks cs) (hrest : Closes rest) :
    Closes (cs ++ rest) := heads_append h.isCloser hrest

/-! ### Tokens -/

namespace TokenKind

def startsFilter : TokenKind → Bool
  | .dot | .hash _ | .leftBracket | .colon => true
  | _ => false

def startsCompound : TokenKind → Bool
  | .star | .ident _ => true
  | kind => kind.startsFilter

def endsCompound : TokenKind → Bool
  | .whitespace | .greater | .comma | .rightParen => true
  | _ => false

/-- What may stand behind the name of an element. -/
def endsElement (kind : TokenKind) : Bool := kind.startsFilter || kind.endsCompound

end TokenKind

theorem Opens.heads_blank {kinds : List TokenKind} (h : Opens TokenKind.startsCompound kinds) :
    Heads (· != .whitespace) kinds := h.heads.ne rfl

theorem of_mem_blankKinds {p : TokenKind → Bool} (hp : p .whitespace = true) {cs : List Char} :
    ∀ kind ∈ blankKinds cs, p kind = true := by
  rw [blankKinds]
  split <;> simp [hp]

theorem heads_blankKinds {p : TokenKind → Bool} (hp : p .whitespace = true) (cs : List Char)
    {kinds : List TokenKind} (h : Heads p kinds) : Heads p (blankKinds cs ++ kinds) :=
  heads_append (of_mem_blankKinds hp) h

/-- The parser reads `a` from the tokens in front, whatever stands behind them that may follow. -/
def Takes {α : Type} (parser : Parser α) (a : α) (front : List TokenKind)
    (follows : List TokenKind → Prop) : Prop :=
  ∀ input kinds, input.kinds = front ++ kinds → follows kinds →
    ∃ left, parser input = .ok (a, left) ∧ left.kinds = kinds

namespace Input

variable {input : Input} {kind : TokenKind} {kinds : List TokenKind}

theorem current_of_kinds (h : input.kinds = kind :: kinds) : input.current = kind := by
  rw [current_eq, h]
  rfl

theorem current_ne (h : input.kinds = kinds) (hkinds : Heads (· != kind) kinds)
    (heof : kind ≠ .eof) : input.current ≠ kind := by
  rw [current_eq, h]
  cases kinds with
  | nil => exact heof.symm
  | cons next kinds => exact bne_iff_ne.mp (hkinds next rfl)

theorem advance_of_kinds (h : input.kinds = kind :: kinds) : input.advance.kinds = kinds := by
  rw [kinds_advance, h]
  rfl

theorem length_le_of_kinds {front : List TokenKind} (h : input.kinds = front ++ kinds) :
    front.length ≤ input.ahead.length := by
  rw [← length_kinds, h, List.length_append]
  exact Nat.le_add_right _ _

theorem expect_of_kinds (h : input.kinds = kind :: kinds) (what : String) :
    input.expect kind what = .ok input.advance := by
  rw [expect, if_pos (current_of_kinds h)]

theorem skipBlanks_of_kinds {cs : List Char} (h : input.kinds = blankKinds cs ++ kinds)
    (hkinds : Heads (· != .whitespace) kinds) : input.skipBlanks.kinds = kinds := by
  have hdrop : kinds.dropWhile (· == .whitespace) = kinds := by
    cases kinds with
    | nil => rfl
    | cons kind kinds =>
        have hkind := hkinds kind rfl
        exact List.dropWhile_cons_of_neg (by simpa using hkind)
  rw [kinds_skipBlanks, h, blankKinds]
  split
  · exact hdrop
  · exact hdrop

theorem skipBlanks_of_heads (h : input.kinds = kinds) (hkinds : Heads (· != .whitespace) kinds) :
    input.skipBlanks.kinds = kinds := @skipBlanks_of_kinds _ _ [] h hkinds

end Input

/-! ## Names -/

def NamePart.kind : NamePart → TokenKind
  | .any => .star
  | .name text => .ident text

def prefixKinds : Option NamePart → List TokenKind
  | none => []
  | some pfx => [pfx.kind, .pipe]

def elementKinds : Option TypeSelector → List TokenKind
  | none => []
  | some type => prefixKinds type.pfx ++ [type.name.kind]

theorem starts_prefixKinds (pfx : Option NamePart) (name : NamePart) (kinds : List TokenKind) :
    Opens TokenKind.startsCompound (prefixKinds pfx ++ name.kind :: kinds) := by
  cases pfx with
  | none => cases name <;> exact opens_cons rfl _
  | some pfx => cases pfx <;> exact opens_cons rfl _

section
variable {rest : List Char} {kinds : List TokenKind}

theorem NamePart.lexes {part : NamePart} (h : part.Legible) (hname : Stops goesOn rest)
    (heq : Stops (· == '=') rest) (hlexes : Lexes rest kinds) :
    Lexes (part.text ++ rest) (part.kind :: kinds) := by
  cases part with
  | any => exact Lexes.alone (c := '*') rfl heq hlexes
  | name text => exact Lexes.ident h hname hlexes

/-- A character that goes on neither blanks nor a comparison. -/
def isFresh (c : Char) : Bool := !isBlank c && c != '='

theorem IsBareName.opens {text : String} (h : IsBareName text) : Opens isFresh text.toList := by
  obtain ⟨c, more, htext, hc, hblank⟩ := h.cons
  have hne : c ≠ '=' := by
    rintro rfl
    cases hc
  exact ⟨c, more, htext, by simp [isFresh, hblank, hne]⟩

theorem NamePart.opens {part : NamePart} (h : part.Legible) : Opens isFresh part.text := by
  cases part with
  | any => exact opens_cons rfl []
  | name text => exact IsBareName.opens h

theorem Opens.stops_blank {cs : List Char} (h : Opens isFresh cs) (rest : List Char) :
    Stops isBlank (cs ++ rest) := by
  obtain ⟨c, more, rfl, hc⟩ := h
  exact stops_cons (by simpa using (Bool.and_eq_true_iff.mp hc).1)

theorem Opens.stops_eq {cs : List Char} (h : Opens isFresh cs) (rest : List Char) :
    Stops (· == '=') (cs ++ rest) := by
  obtain ⟨c, more, rfl, hc⟩ := h
  exact stops_cons (by simpa using (Bool.and_eq_true_iff.mp hc).2)

theorem lexes_prefixText {pfx : Option NamePart} (h : PrefixLegible pfx)
    (heq : Stops (· == '=') rest) (hlexes : Lexes rest kinds) :
    Lexes (prefixText pfx ++ rest) (prefixKinds pfx ++ kinds) := by
  cases pfx with
  | none => exact hlexes
  | some pfx =>
      have hpipe : Lexes ('|' :: rest) (.pipe :: kinds) := Lexes.alone (c := '|') rfl heq hlexes
      have hpart := NamePart.lexes (h pfx rfl) (stops_cons rfl) (stops_cons rfl) hpipe
      simpa [prefixText, prefixKinds] using hpart

theorem lexes_element {element : Option TypeSelector} (h : ElementLegible element)
    (hrest : Closes rest) (hlexes : Lexes rest kinds) :
    Lexes (elementText element ++ rest) (elementKinds element ++ kinds) := by
  cases element with
  | none => exact hlexes
  | some type =>
      obtain ⟨hpfx, hname⟩ := h type rfl
      have hpart := NamePart.lexes hname hrest.stops_name hrest.stops_eq hlexes
      have hboth := lexes_prefixText hpfx ((NamePart.opens hname).stops_eq rest) hpart
      simpa [elementText, TypeSelector.text, elementKinds] using hboth

theorem opens_prefixText {pfx : Option NamePart} (h : PrefixLegible pfx) {cs : List Char}
    (hcs : Opens isFresh cs) : Opens isFresh (prefixText pfx ++ cs) := by
  cases pfx with
  | none => exact hcs
  | some pfx =>
      rw [prefixText, List.append_assoc]
      exact (NamePart.opens (h pfx rfl)).append _

end

namespace Input

variable {input : Input} {kinds : List TokenKind}

theorem namePart?_of_kinds (part : NamePart) (h : input.kinds = part.kind :: kinds) :
    namePart? input = (some part, input.advance) := by
  rw [namePart?, current_of_kinds h]
  cases part <;> rfl

theorem namePart?_of_heads (h : Heads TokenKind.endsElement input.kinds) :
    namePart? input = (none, input) := by
  rw [namePart?, current_eq]
  cases hkinds : input.kinds with
  | nil => rfl
  | cons kind kinds =>
      have hkind := h kind (by rw [hkinds]; rfl)
      cases kind <;> first | rfl | cases hkind

end Input

theorem takes_typeSelector (element : Option TypeSelector) :
    Takes typeSelector element (elementKinds element) (Heads TokenKind.endsElement) := by
  intro input kinds h hkinds
  cases element with
  | none =>
      have hinput : input.kinds = kinds := h
      refine ⟨input, ?_, hinput⟩
      rw [typeSelector, Input.namePart?_of_heads (hinput ▸ hkinds)]
  | some type =>
      obtain ⟨pfx, name⟩ := type
      cases pfx with
      | none =>
          have hinput : input.kinds = name.kind :: kinds := h
          have hadvance := Input.advance_of_kinds hinput
          have hpipe := Input.current_ne hadvance (hkinds.ne (x := .pipe) rfl) (by decide)
          refine ⟨input.advance, ?_, hadvance⟩
          rw [typeSelector, Input.namePart?_of_kinds name hinput]
          simp only [if_neg hpipe]
      | some pfx =>
          have hinput : input.kinds = pfx.kind :: .pipe :: name.kind :: kinds := h
          have hadvance := Input.advance_of_kinds hinput
          have hname := Input.advance_of_kinds hadvance
          refine ⟨input.advance.advance.advance, ?_, Input.advance_of_kinds hname⟩
          rw [typeSelector, Input.namePart?_of_kinds pfx hinput]
          simp only [if_pos (Input.current_of_kinds hadvance),
            Input.namePart?_of_kinds name hname]

/-! ## Attributes -/

theorem takes_attrName (pfx : Option NamePart) (name : String) :
    Takes attrName (pfx, name) (prefixKinds pfx ++ [.ident name]) (Heads (· != .pipe)) := by
  intro input kinds h hkinds
  cases pfx with
  | none =>
      have hinput : input.kinds = (NamePart.name name).kind :: kinds := h
      have hadvance := Input.advance_of_kinds hinput
      have hpipe := Input.current_ne hadvance hkinds (by decide)
      refine ⟨input.advance, ?_, hadvance⟩
      rw [attrName, Input.namePart?_of_kinds _ hinput]
      simp only [if_neg hpipe]
  | some pfx =>
      have hinput : input.kinds = pfx.kind :: .pipe :: .ident name :: kinds := h
      have hadvance := Input.advance_of_kinds hinput
      have hname := Input.advance_of_kinds hadvance
      refine ⟨input.advance.advance.advance, ?_, Input.advance_of_kinds hname⟩
      rw [attrName, Input.namePart?_of_kinds pfx hinput]
      simp only [if_pos (Input.current_of_kinds hadvance), Input.current_of_kinds hname]

/-- A value, bare or in quotes, is one token. -/
theorem ValueSpelled.exists_lexes {value : String} {cs : List Char} (h : ValueSpelled value cs) :
    ∃ kind, (kind = .string value ∨ kind = .ident value) ∧ Opens isFresh cs ∧
      ∀ {rest : List Char} {kinds : List TokenKind}, Stops goesOn rest → Lexes rest kinds →
        Lexes (cs ++ rest) (kind :: kinds) := by
  cases h with
  | bare h =>
      exact ⟨.ident value, .inr rfl, h.opens, fun hrest hlexes => Lexes.ident h hrest hlexes⟩
  | @quoted quote hquote h =>
      refine ⟨.string value, .inl rfl, opens_cons ?_ _, fun {rest kinds} _ hlexes => ?_⟩
      · rcases hquote with rfl | rfl <;> rfl
      · simpa using Lexes.string hquote h hlexes

/-- What stands between the name of an attribute and the bracket is cut into tokens from which the
comparison is read. -/
structure ComparisonReread (comparison : Option (AttrOp × String)) (cs : List Char)
    (front : List TokenKind) : Prop where
  stops : ∀ rest, Stops goesOn (cs ++ ']' :: rest) ∧ Stops isBlank (cs ++ ']' :: rest)
  heads : ∀ kinds, Heads (fun kind => kind != .pipe && kind != .whitespace)
    (front ++ .rightBracket :: kinds)
  lexes : ∀ {rest kinds}, Lexes (']' :: rest) kinds → Lexes (cs ++ ']' :: rest) (front ++ kinds)
  takes : Takes attrComparison comparison front (Opens (· == .rightBracket))

theorem ComparisonSpelled.exists_reread {comparison : Option (AttrOp × String)} {cs : List Char}
    (h : ComparisonSpelled comparison cs) : ∃ front, ComparisonReread comparison cs front := by
  cases h with
  | absent =>
      refine ⟨[], ⟨fun rest => ⟨stops_cons rfl, stops_cons rfl⟩, fun kinds => heads_cons rfl _, id,
        fun input kinds h hkinds => ?_⟩⟩
      obtain ⟨kind, more, rfl, hkind⟩ := hkinds
      obtain rfl : kind = .rightBracket := beq_iff_eq.mp hkind
      refine ⟨input, ?_, h⟩
      rw [attrComparison, Input.current_of_kinds h]
      rfl
  | @present op value before text after hbefore hvalue hafter =>
      -- Quoted or bare, the value is one token, and it is all that the two forms differ in.
      obtain ⟨kind, hkind, hopens, hlexes⟩ := hvalue.exists_lexes
      refine ⟨op.kind :: (blankKinds before ++ kind :: blankKinds after), ⟨fun rest => ?_,
        fun kinds => ?_, fun {rest kinds} hrest => ?_, fun input kinds h hkinds => ?_⟩⟩
      · cases op <;> exact ⟨stops_cons rfl, stops_cons rfl⟩
      · cases op <;> exact heads_cons rfl _
      · have hbehind := Lexes.blanks hafter (stops_cons rfl) hrest
        have hstops : Stops goesOn (after ++ ']' :: rest) :=
          hafter.stops (by decide +kernel) (stops_cons rfl)
        have htext := Lexes.blanks hbefore (hopens.stops_blank _) (hlexes hstops hbehind)
        simpa using Lexes.comparison op htext
      · obtain ⟨close, more, rfl, hclose⟩ := hkinds
        obtain rfl : close = .rightBracket := beq_iff_eq.mp hclose
        rw [List.cons_append, List.append_assoc] at h
        have hop := Input.current_of_kinds h
        have hvalue : input.advance.skipBlanks.kinds =
            kind :: (blankKinds after ++ .rightBracket :: more) :=
          Input.skipBlanks_of_kinds (Input.advance_of_kinds h)
            (heads_cons (by rcases hkind with rfl | rfl <;> rfl) _)
        refine ⟨input.advance.skipBlanks.advance.skipBlanks, ?_,
          Input.skipBlanks_of_kinds (Input.advance_of_kinds hvalue) (heads_cons rfl _)⟩
        rw [attrComparison, hop, attrOp?_kind]
        simp only [Input.current_of_kinds hvalue]
        rcases hkind with rfl | rfl <;> rfl

end TreeQuery.Selector
