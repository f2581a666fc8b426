import TreeQuery.Proofs.Expr.Legible
import TreeQuery.Proofs.Expr.Lexing
import TreeQuery.Proofs.Expr.Unsigned
import TreeQuery.Proofs.Program.Agreement

/-!
The text of an expression, read back. A legible expression is read as the flat one, with a minus
sign in front of each number that is negative. What is itself read from a text has no such number,
so it has the same outcome. The other theorems say what becomes of expressions that are not legible.
-/
namespace TreeQuery.Expr

open TreeQuery.Text (Stops isBlank stops_cons)

/-! ## Texts -/

theorem closes_nil : Closes [] := ⟨by simp, fun _ => rfl⟩

theorem closes_cons {c : Char} (hc : c ∈ [')', ']', ',', '/', '[']) (rest : List Char) :
    Closes (c :: rest) := by
  simp only [List.mem_cons, List.not_mem_nil, or_false] at hc
  refine ⟨fun d hd => ?_, fun text => ?_⟩
  · obtain rfl : c = d := by simpa using hd
    simp [hc]
  · rcases hc with rfl | rfl | rfl | rfl | rfl <;> rfl

theorem closes_operator (op : BinaryOp) (rest : List Char) :
    Closes (' ' :: (op.sign.toList ++ rest)) := by
  refine ⟨by simp, fun text => ?_⟩
  cases op <;> rfl

theorem closes_pipe (rest : List Char) : Closes (' ' :: '|' :: rest) :=
  ⟨by simp, fun _ => rfl⟩

section
variable {allowed : Bool} {rest : List Char} {more : List TokenKind}

theorem Lexes.symbol {c : Char} {kind : TokenKind} (hkind : singles.lookup c = some kind)
    (hc : ∀ entry ∈ pairs, c ≠ entry.1.1) (h : Lexes (kind.allowsOperator allowed) rest more) :
    Lexes allowed (c :: rest) (kind :: more) := by
  have hpoint : c ≠ '.' := hc (('.', '.'), .doubleDot) (by simp [pairs])
  exact .token (cuts_single hkind hpoint (pairAt?_of_ne hc rest) allowed) h

theorem Lexes.slash (hpair : pairAt? '/' rest = none) (h : Lexes false rest more) :
    Lexes allowed ('/' :: rest) (.slash :: more) :=
  .token (cuts_single rfl (by decide) hpair allowed) h

theorem lexes_operator {op : BinaryOp} (hop : op.isStepLike = true → allowed = true)
    (h : Lexes false rest more) :
    Lexes allowed (op.sign.toList ++ ' ' :: rest) (op.token :: more) := by
  have hblank : Lexes false (' ' :: rest) more := .blank rfl h
  have hstops : Stops isNameChar (' ' :: rest) := stops_cons rfl
  cases op with
  | or | and | div | mod =>
      obtain rfl := hop rfl
      exact .token (cuts_operator (by decide) hstops) hblank
  | mul =>
      obtain rfl := hop rfl
      exact .token (cuts_times _) hblank
  | eq => exact .symbol rfl (by decide) hblank
  | add => exact .symbol rfl (by decide) hblank
  | sub => exact .symbol rfl (by decide) hblank
  | lt => exact .token (cuts_single rfl (by decide) rfl allowed) hblank
  | gt => exact .token (cuts_single rfl (by decide) rfl allowed) hblank
  | ne | le | ge => exact .token ⟨_, _, rfl, rfl, rfl⟩ hblank

/-! ### Node tests and names of functions -/

theorem IsName.ne_star {text : String} (h : IsName text) : text ≠ "*" := by
  rintro rfl
  exact absurd h.1 (by decide)

theorem lexes_nodeType {text : String} (h : text ∈ nodeTypeNames) (hrest : Lexes false rest more) :
    Lexes false (text.toList ++ '(' :: rest) (.nodeType text :: .leftParen :: more) := by
  have hnames : ∀ name ∈ nodeTypeNames, startsName name.toList = true ∧
      name.toList.all isNameChar = true := by decide +kernel
  obtain ⟨hstart, hchars⟩ := hnames text h
  have hname : IsName text := ⟨hstart, List.all_eq_true.mp hchars⟩
  have hcuts := cuts_word hname (stops_cons rfl : Stops isNameChar ('(' :: rest)) rfl
  rw [Tokens.wordKind_of_leftParen rfl h] at hcuts
  exact .token hcuts (.symbol rfl (by decide) hrest)

theorem lexes_typeTest {text : String} {test : NodeTest} (h : (text, test) ∈ typeTests)
    (hrest : Lexes true rest more) :
    Lexes false (test.render.toList ++ rest)
      (.nodeType text :: .leftParen :: .rightParen :: more) := by
  have htests : ∀ entry ∈ typeTests, entry.1 ∈ nodeTypeNames ∧
      entry.2.render.toList = entry.1.toList ++ ['(', ')'] := by decide
  obtain ⟨hname, hrender⟩ := htests _ h
  have hparen : Lexes false (')' :: rest) (.rightParen :: more) := .symbol rfl (by decide) hrest
  simpa [hrender] using lexes_nodeType hname hparen

theorem lexes_star (hcloses : Closes rest) (hrest : Lexes true rest more) :
    Lexes false (NodeTest.any.render.toList ++ rest) (.star :: more) := by
  have hlexes : Lexes false (['*'] ++ rest) (.star :: more) :=
    .token (cuts_star hcloses.localPartAt?) hrest
  exact hlexes

theorem lexes_name {text : String} (hname : IsName text) (hcloses : Closes rest)
    (hrest : Lexes true rest more) :
    Lexes false ((NodeTest.name text).render.toList ++ rest) (.name text :: more) := by
  have hcuts := cuts_word hname hcloses.stops_name hcloses.localPartAt?
  rw [hcloses.word text] at hcuts
  exact .token hcuts hrest

theorem lexes_qualified {pfx localPart : String} (hpfx : IsName pfx) (hlocal : IsName localPart)
    (hcloses : Closes rest) (hrest : Lexes true rest more) :
    Lexes false ((NodeTest.qualified pfx localPart).render.toList ++ rest)
      (.nameTest pfx localPart :: more) := by
  have hrender : (NodeTest.qualified pfx localPart).render.toList =
      pfx.toList ++ ':' :: localPart.toList := by
    change (pfx ++ ":" ++ localPart).toList = _
    simp
  rw [hrender]
  exact .token (cuts_prefixed hpfx (.inr hlocal) hcloses.stops_name) hrest

theorem lexes_anyIn {pfx : String} (hpfx : IsName pfx) (hcloses : Closes rest)
    (hrest : Lexes true rest more) :
    Lexes false ((NodeTest.anyIn pfx).render.toList ++ rest) (.nameTest pfx "*" :: more) := by
  have hrender : (NodeTest.anyIn pfx).render.toList = pfx.toList ++ ':' :: "*".toList := by
    change (pfx ++ ":*").toList = _
    simp
  rw [hrender]
  exact .token (cuts_prefixed hpfx (.inl rfl) hcloses.stops_name) hrest

theorem lexes_anyNamed {localPart : String} (hlocal : IsName localPart) (hcloses : Closes rest)
    (hrest : Lexes true rest more) :
    Lexes false ((NodeTest.anyNamed localPart).render.toList ++ rest)
      (.nameTest "*" localPart :: more) := by
  have hrender : (NodeTest.anyNamed localPart).render.toList =
      '*' :: ':' :: localPart.toList := by
    change ("*:" ++ localPart).toList = _
    simp
  rw [hrender]
  exact .token (cuts_anyPrefixed (.inr hlocal) hcloses.stops_name) hrest

theorem lexes_target {target : String} (hlegible : (NodeTest.instruction (some target)).Legible)
    (hrest : Lexes true rest more) :
    Lexes false ((NodeTest.instruction (some target)).render.toList ++ rest)
      (.nodeType "processing-instruction" :: .leftParen :: .string target :: .rightParen ::
        more) := by
  have hrender : (NodeTest.instruction (some target)).render.toList ++ rest =
      "processing-instruction".toList ++
        '(' :: ('\x27' :: (target.toList ++ ['\x27']) ++ ')' :: rest) := by
    change ("processing-instruction('" ++ target ++ "')").toList ++ rest = _
    simp
  have hname : "processing-instruction" ∈ nodeTypeNames := by simp [nodeTypeNames]
  have hcuts := cuts_quoted (Or.inr rfl) hlegible (')' :: rest) false
  have hparen : Lexes true (')' :: rest) (.rightParen :: more) := .symbol rfl (by decide) hrest
  rw [hrender]
  exact lexes_nodeType hname (.token hcuts hparen)

theorem lexes_test {test : NodeTest} (hfitting : test.Fitting) (hlegible : test.Legible) :
    ∃ bs, TestTokens test bs ∧ ∀ {rest more}, Closes rest → Lexes true rest more →
      Lexes false (test.render.toList ++ rest) (bs ++ more) := by
  have htype : ∀ text, (text, test) ∈ typeTests → ∃ bs, TestTokens test bs ∧
      ∀ {rest more}, Closes rest → Lexes true rest more →
        Lexes false (test.render.toList ++ rest) (bs ++ more) := fun text h =>
    ⟨_, .type h, fun _ hrest => lexes_typeTest h hrest⟩
  cases test with
  | any => exact ⟨_, .any, lexes_star⟩
  | name text => exact ⟨_, .name text, lexes_name hfitting⟩
  | qualified pfx localPart =>
      obtain ⟨hpfx, hlocal⟩ := hfitting
      exact ⟨_, .qualified hpfx.ne_star hlocal.ne_star, lexes_qualified hpfx hlocal⟩
  | anyIn pfx => exact ⟨_, .anyIn (IsName.ne_star hfitting), lexes_anyIn hfitting⟩
  | anyNamed localPart =>
      exact ⟨_, .anyNamed (IsName.ne_star hfitting), lexes_anyNamed hfitting⟩
  | node => exact htype "node" (by simp [typeTests])
  | text => exact htype "text" (by simp [typeTests])
  | comment => exact htype "comment" (by simp [typeTests])
  | cdata => exact htype "cdata" (by simp [typeTests])
  | instruction target =>
      cases target with
      | none => exact htype "processing-instruction" (by simp [typeTests])
      | some target => exact ⟨_, .target target, fun _ hrest => lexes_target hlegible hrest⟩

theorem wordKind_of_call {text : String} (h : text ∉ nodeTypeNames) (rest : List Char) :
    wordKind text ('(' :: rest) = .name text := by
  have hafter : ('(' :: rest).dropWhile isBlank = '(' :: rest := rfl
  simp only [wordKind, hafter]
  exact if_neg (mt List.contains_iff_mem.mp h)

theorem lexes_functionName {name : String} (h : FunctionName name) :
    ∃ kind, FunctionToken name kind ∧ ∀ {rest more}, Lexes false rest more →
      Lexes false (name.toList ++ '(' :: rest) (kind :: .leftParen :: more) := by
  obtain ⟨kind, hname, hfitting, hcall⟩ := h
  refine ⟨kind, hname, fun {rest more} hrest => ?_⟩
  have hstops : Stops isNameChar ('(' :: rest) := stops_cons rfl
  have hparen : Lexes true ('(' :: rest) (.leftParen :: more) := .symbol rfl (by decide) hrest
  cases hname with
  | name =>
      have hcuts := cuts_word hfitting hstops rfl
      rw [wordKind_of_call (hcall name rfl)] at hcuts
      exact .token hcuts hparen
  | prefixed pfx localPart =>
      obtain ⟨hpfx, hlocal⟩ := hfitting
      have htext : (pfx ++ ":" ++ localPart).toList = pfx.toList ++ ':' :: localPart.toList := by
        simp
      rw [htext]
      rcases hpfx with rfl | hpfx
      · exact .token (cuts_anyPrefixed hlocal hstops) hparen
      · exact .token (cuts_prefixed hpfx hlocal hstops) hparen

theorem lexes_axis (axis : Axis) (hrest : Lexes false rest more) :
    Lexes false (axis.name.toList ++ ':' :: ':' :: rest)
      (.axis axis.name :: .doubleColon :: more) := by
  have hnames : ∀ axis ∈ Axis.all, startsName axis.name.toList = true ∧
      axis.name.toList.all isNameChar = true := by decide +kernel
  obtain ⟨hstart, hchars⟩ := hnames axis (Axis.mem_all axis)
  have hname : IsName axis.name := ⟨hstart, List.all_eq_true.mp hchars⟩
  have hstops : Stops isNameChar (':' :: ':' :: rest) := stops_cons rfl
  have hcolons : Lexes false (':' :: ':' :: rest) (.doubleColon :: more) :=
    .token ⟨':', [':'], rfl, rfl, rfl⟩ hrest
  have hcuts := cuts_word hname hstops rfl
  exact .token hcuts hcolons

end

/-! ## Printed expressions -/

/-- The text of an expression is read as the tokens, and these as the flat expression without
negative numbers. -/
structure Printed (e : Expr) (kinds : List TokenKind) : Prop where
  lexes {rest : List Char} {more : List TokenKind} (hrest : Closes rest)
    (hroot : e.isRoot = true → pairAt? '/' rest = none) (h : Lexes (!e.isRoot) rest more) :
    Lexes false (e.render.toList ++ rest) (kinds ++ more)
  readable : Readable e.unsigned kinds

theorem isRoot_unsigned (e : Expr) : e.unsigned.isRoot = e.isRoot := by
  cases e with
  | absolute parts => cases parts <;> rfl
  | number value =>
      rw [unsigned]
      split <;> rfl
  | _ => rfl

theorem Printed.whole {e : Expr} {kinds rest : List TokenKind} (h : Printed e kinds)
    (hstep : e.isStep = false) (hrest : startsStep rest = false) :
    Derives (.whole e.unsigned.flat) (kinds ++ rest) rest :=
  h.readable.whole ((isStep_unsigned e).trans hstep) hrest

theorem Printed.signed {e : Expr} {kinds rest : List TokenKind} (h : Printed e kinds)
    (hstep : e.isStep = false) (hroot : e.isRoot = true → startsStep rest = false) :
    Derives (.signed e.unsigned.flat) (kinds ++ rest) rest :=
  h.readable.signed ((isStep_unsigned e).trans hstep) rest fun h => hroot (isRoot_unsigned e ▸ h)

theorem Printed.step {e : Expr} {kinds : List TokenKind} (h : Printed e kinds)
    (hstep : e.isStep = true) (rest : List TokenKind) :
    Derives (.step e.unsigned.flat) (kinds ++ rest) rest :=
  h.readable.step ((isStep_unsigned e).trans hstep) rest

section
variable {allowed : Bool} {rest : List Char} {more : List TokenKind}

/-- A text in front of a symbol behind which nothing depends on the text. -/
theorem Printed.lexes_symbol {e : Expr} {kinds : List TokenKind} (he : Printed e kinds) {c : Char}
    {kind : TokenKind}
    (hc : (c, kind) ∈ [(')', .rightParen), (']', .rightBracket), (',', TokenKind.comma)])
    (h : Lexes (kind.allowsOperator false) rest more) :
    Lexes false (e.render.toList ++ c :: rest) (kinds ++ kind :: more) := by
  have hentries : ∀ entry ∈ [(')', .rightParen), (']', .rightBracket), (',', TokenKind.comma)],
      entry.1 ∈ [')', ']', ',', '/', '['] ∧ singles.lookup entry.1 = some entry.2 ∧
        (∀ pair ∈ pairs, entry.1 ≠ pair.1.1) ∧
        entry.2.allowsOperator true = entry.2.allowsOperator false ∧
        ('/', entry.1) ∉ pairs.map (·.1) := by decide
  obtain ⟨hcloses, hsingle, hpairs, hallows, hslash⟩ := hentries _ hc
  refine he.lexes (closes_cons hcloses rest) (fun _ => ?_) (.symbol hsingle hpairs ?_)
  · rw [pairAt?, List.lookup_eq_none_iff]
    intro pair hpair
    simpa using fun heq => hslash (List.mem_map.mpr ⟨pair, hpair, heq.symm⟩)
  · cases e.isRoot
    · exact hallows ▸ h
    · exact h

theorem Printed.lexes_parenthesised {e : Expr} {kinds : List TokenKind} (he : Printed e kinds)
    (h : Lexes true rest more) :
    Lexes allowed ('(' :: (e.render.toList ++ ')' :: rest))
      (.leftParen :: (kinds ++ .rightParen :: more)) :=
  .symbol rfl (by decide) (he.lexes_symbol (by simp) h)

/-! ### Predicates and arguments -/

/-- What is read as a whole expression can be printed. -/
def Printable (e : Expr) : Prop := e.isStep = false ∧ ∃ kinds, Printed e kinds

theorem printed_predicates {es : List Expr} (h : ∀ e ∈ es, e.Printable) :
    ∃ kinds, (∀ {rest more}, Lexes true rest more →
        Lexes true ((renderPredicates es).toList ++ rest) (kinds ++ more)) ∧
      ∀ rest, Derives (.predicates (flatAll (unsignedAll es))) (kinds ++ rest) rest := by
  induction es with
  | nil => exact ⟨[], fun hrest => hrest, fun _ => .noPredicate⟩
  | cons e es ih =>
      obtain ⟨⟨hstep, kinds, he⟩, hes⟩ := List.forall_mem_cons.mp h
      obtain ⟨kinds', hlexes, hderives⟩ := ih hes
      refine ⟨.leftBracket :: (kinds ++ .rightBracket :: kinds'), fun {rest more} hrest => ?_,
        fun rest => ?_⟩
      · have hpredicate : Lexes false (e.render.toList ++
            ']' :: ((renderPredicates es).toList ++ rest))
            (kinds ++ .rightBracket :: (kinds' ++ more)) :=
          he.lexes_symbol (by simp) (hlexes hrest)
        have hbracket : Lexes true ('[' :: (e.render.toList ++ ']' ::
            ((renderPredicates es).toList ++ rest)))
            (.leftBracket :: (kinds ++ .rightBracket :: (kinds' ++ more))) :=
          .symbol rfl (by decide) hpredicate
        simpa [renderPredicates] using hbracket
      · have hwhole : Derives (.whole e.unsigned.flat) (kinds ++ .rightBracket :: (kinds' ++ rest))
            (.rightBracket :: (kinds' ++ rest)) := he.whole hstep rfl
        simpa [flatAll, unsignedAll] using Derives.predicate hwhole (hderives rest)

theorem printed_arguments {e : Expr} {es : List Expr} (h : ∀ arg ∈ e :: es, arg.Printable) :
    ∃ kinds, (∀ {rest more}, Lexes true rest more →
        Lexes false ((renderJoined ", " (e :: es)).toList ++ ')' :: rest)
          (kinds ++ .rightParen :: more)) ∧
      ∀ rest, Derives (.arguments (flatAll (unsignedAll (e :: es)))) (kinds ++ .rightParen :: rest)
        (.rightParen :: rest) := by
  induction es generalizing e with
  | nil =>
      obtain ⟨hstep, kinds, he⟩ := h e List.mem_cons_self
      refine ⟨kinds, fun hrest => ?_, fun rest => ?_⟩
      · exact he.lexes_symbol (by simp) hrest
      · exact .lastArgument (he.whole hstep rfl)
  | cons e' es ih =>
      obtain ⟨⟨hstep, kinds, he⟩, hes⟩ := List.forall_mem_cons.mp h
      obtain ⟨kinds', hlexes, hderives⟩ := ih hes
      refine ⟨kinds ++ .comma :: kinds', fun {rest more} hrest => ?_, fun rest => ?_⟩
      · have hargument : Lexes false (e.render.toList ++
            ',' :: ' ' :: ((renderJoined ", " (e' :: es)).toList ++ ')' :: rest))
            (kinds ++ .comma :: (kinds' ++ .rightParen :: more)) :=
          he.lexes_symbol (by simp) (.blank rfl (hlexes hrest))
        simpa [renderJoined] using hargument
      · have hwhole : Derives (.whole e.unsigned.flat)
            (kinds ++ .comma :: (kinds' ++ .rightParen :: rest))
            (.comma :: (kinds' ++ .rightParen :: rest)) := he.whole hstep rfl
        simpa [flatAll, unsignedAll] using Derives.argument hwhole (hderives rest)

end

/-! ### Paths -/

section
variable {axis : Axis} {test : NodeTest} {predicates : List Expr}

theorem toList_step (axis : Axis) (test : NodeTest) (predicates : List Expr) (rest : List Char) :
    (step axis test predicates).render.toList ++ rest = axis.name.toList ++
      ':' :: ':' :: (test.render.toList ++ ((renderPredicates predicates).toList ++ rest)) := by
  simp [render]

theorem closes_predicates (es : List Expr) {rest : List Char} (hrest : Closes rest) :
    Closes ((renderPredicates es).toList ++ rest) := by
  cases es with
  | nil => exact hrest
  | cons e es =>
      have hbracket := closes_cons (c := '[') (by simp) (e.render.toList ++ ']' ::
        ((renderPredicates es).toList ++ rest))
      simpa [renderPredicates] using hbracket

theorem printed_step (htest : test.Fitting) (hlegible : test.Legible)
    (h : ∀ e ∈ predicates, e.Printable) : ∃ kinds, Printed (step axis test predicates) kinds := by
  obtain ⟨bs, htokens, htext⟩ := lexes_test htest hlegible
  obtain ⟨kinds, hlexes, hderives⟩ := printed_predicates h
  refine ⟨.axis axis.name :: .doubleColon :: (bs ++ kinds), fun hrest _ hmore => ?_,
    readable_of_step rfl fun rest => ?_⟩
  · rw [toList_step]
    simp only [List.cons_append, List.append_assoc]
    exact lexes_axis axis (htext (closes_predicates predicates hrest) (hlexes hmore))
  · simp only [List.cons_append, List.append_assoc]
    exact .step (.named axis) htokens (hderives rest)

/-- The text of steps with slashes between them is read as the tokens, and these as the steps. -/
structure PrintedSteps (es : List Expr) (kinds : List TokenKind) : Prop where
  lexes {rest : List Char} {more : List TokenKind} (hrest : Closes rest)
    (h : Lexes true rest more) :
    Lexes false ((renderJoined "/" es).toList ++ rest) (kinds ++ more)
  slash (rest : List Char) : pairAt? '/' ((renderJoined "/" es).toList ++ rest) = none
  derives (rest : List TokenKind) : Derives (.steps (flatAll (unsignedAll es))) (kinds ++ rest) rest
  leads {es' : List Expr} {ts rest : List TokenKind} (h : Derives (.steps es') ts rest) :
    Derives (.steps (flatAll (unsignedAll es) ++ es')) (kinds ++ .slash :: ts) rest

/-- A step starts with the name of its axis, not with another slash. -/
theorem pairAt?_step {e : Expr} (h : e.isStep = true) (rest : List Char) :
    pairAt? '/' (e.render.toList ++ rest) = none := by
  cases e with
  | step axis test predicates =>
      rw [toList_step]
      cases axis <;> rfl
  | _ => cases h

theorem isRoot_of_isStep {e : Expr} (h : e.isStep = true) : e.isRoot = false := by
  cases e with
  | step => rfl
  | _ => cases h

theorem printed_steps {e : Expr} {es : List Expr}
    (h : ∀ part ∈ e :: es, part.isStep = true ∧ ∃ kinds, Printed part kinds) :
    ∃ kinds, PrintedSteps (e :: es) kinds := by
  induction es generalizing e with
  | nil =>
      obtain ⟨hstep, kinds, he⟩ := h e List.mem_cons_self
      have hroot := isRoot_of_isStep hstep
      refine ⟨kinds, fun hrest hmore => ?_, pairAt?_step hstep,
        fun rest => .lastStep (he.step hstep rest),
        fun hsteps => .stepSlash (he.step hstep _) hsteps⟩
      exact he.lexes hrest (by simp [hroot]) (by simpa [hroot] using hmore)
  | cons e' es ih =>
      obtain ⟨⟨hstep, kinds, he⟩, hes⟩ := List.forall_mem_cons.mp h
      obtain ⟨kinds', hprinted⟩ := ih hes
      have hroot := isRoot_of_isStep hstep
      have hjoined : ∀ rest, (renderJoined "/" (e :: e' :: es)).toList ++ rest =
          e.render.toList ++ '/' :: ((renderJoined "/" (e' :: es)).toList ++ rest) := by
        simp [renderJoined]
      refine ⟨kinds ++ .slash :: kinds', fun {rest more} hrest hmore => ?_, fun rest => ?_,
        fun rest => ?_, fun {es' ts rest} hsteps => ?_⟩
      · rw [hjoined, List.append_assoc, List.cons_append]
        exact he.lexes (closes_cons (by simp) _) (by simp [hroot])
          (.slash (hprinted.slash rest) (hprinted.lexes hrest hmore))
      · rw [hjoined]
        exact pairAt?_step hstep _
      · rw [List.append_assoc, List.cons_append]
        exact .stepSlash (he.step hstep _) (hprinted.derives rest)
      · rw [List.append_assoc, List.cons_append]
        exact .stepSlash (he.step hstep _) (hprinted.leads hsteps)

theorem printed_root : Printed (absolute []) [.slash] where
  lexes hrest hroot h := .slash (hroot rfl) h
  readable := readable_of_path rfl (fun _ hroot => .root (hroot rfl)) (fun hroot => by cases hroot)

theorem printed_absolute {e : Expr} {es : List Expr}
    (h : ∀ part ∈ e :: es, part.isStep = true ∧ ∃ kinds, Printed part kinds) :
    ∃ kinds, Printed (absolute (e :: es)) kinds := by
  obtain ⟨kinds, hprinted⟩ := printed_steps h
  refine ⟨.slash :: kinds, fun {rest more} hrest _ hmore => ?_, readable_of_path rfl ?_ ?_⟩
  · have hslash : Lexes false ('/' :: ((renderJoined "/" (e :: es)).toList ++ rest))
        (.slash :: (kinds ++ more)) := .slash (hprinted.slash rest) (hprinted.lexes hrest hmore)
    simpa [render] using hslash
  · exact fun rest _ => .absolute (hprinted.derives rest)
  · exact fun _ => fun hsteps => .absolute (hprinted.leads hsteps)

/-- A path of one step only. -/
theorem printed_single {e : Expr} {kinds : List TokenKind} (hstep : e.isStep = true)
    (he : Printed e kinds) : Printed (relative [e]) kinds where
  lexes hrest _ hmore := by
    have hroot := isRoot_of_isStep hstep
    exact he.lexes hrest (by simp [hroot]) (by rw [hroot]; exact hmore)
  readable := by
    have hflat : (relative [e]).unsigned.flat = relative [e.unsigned.flat] := by
      have hstep' := (isStep_flat e.unsigned).trans ((isStep_unsigned e).trans hstep)
      rw [unsigned, unsignedAll, unsignedAll, flat, flatPath, flatAll, lead_of_isStep hstep']
    refine readable_of_path rfl (fun rest _ => ?_) fun _ {es ts rest} hsteps => ?_
    · rw [hflat]
      exact .relative (.lastStep (he.step hstep rest))
    · rw [hflat]
      exact .relative (.stepSlash (he.step hstep _) hsteps)

theorem printed_relative {first e : Expr} {es : List Expr} {kinds : List TokenKind}
    (hfirst : Printed first kinds) (hroot : first.isRoot = false)
    (hneg : first.unsigned.isNegation = false)
    (h : ∀ part ∈ e :: es, part.isStep = true ∧ ∃ kinds, Printed part kinds) :
    ∃ kinds, Printed (relative (first :: e :: es)) kinds := by
  obtain ⟨kinds', hprinted⟩ := printed_steps h
  have hflat : (relative (first :: e :: es)).unsigned.flat =
      lead first.unsigned.flat (flatAll (unsignedAll (e :: es))) := by
    rw [unsigned, unsignedAll, flat, flatPath]
  have hroot' := (isRoot_unsigned first).trans hroot
  refine ⟨kinds ++ .slash :: kinds', fun {rest more} hrest _ hmore => ?_, readable_of_path rfl
    (fun rest _ => ?_) fun _ {es' ts rest} hsteps => ?_⟩
  · have htext : (relative (first :: e :: es)).render.toList ++ rest =
        first.render.toList ++ '/' :: ((renderJoined "/" (e :: es)).toList ++ rest) := by
      simp [render, renderJoined]
    rw [htext, List.append_assoc, List.cons_append]
    exact hfirst.lexes (closes_cons (by simp) _) (by simp [hroot])
      (.slash (hprinted.slash rest) (hprinted.lexes hrest hmore))
  · rw [hflat, List.append_assoc, List.cons_append]
    exact hfirst.readable.leads hneg hroot' (hprinted.derives rest)
  · rw [hflat, lead_lead, List.append_assoc, List.cons_append]
    exact hfirst.readable.leads hneg hroot' (hprinted.leads hsteps)

end

/-! ### Values -/

section
variable {left right operand : Expr} {kinds kinds' : List TokenKind}

theorem startsStep_token {op : BinaryOp} (h : op.isStepLike = false) (rest : List TokenKind) :
    startsStep (op.token :: rest) = false := by
  cases op <;> first | rfl | cases h

theorem printed_binary {op : BinaryOp} (hleft : Printed left kinds) (hright : Printed right kinds')
    (hleftStep : left.isStep = false) (hrightStep : right.isStep = false)
    (hlegible : op.isStepLike = true → left.isRoot = false) :
    Printed (binary op left right)
      (.leftParen :: (kinds ++ op.token :: (kinds' ++ [.rightParen]))) where
  lexes {rest more} _ _ hmore := by
    have htext : (binary op left right).render.toList ++ rest = '(' :: (left.render.toList ++
        ' ' :: (op.sign.toList ++ ' ' :: (right.render.toList ++ ')' :: rest))) := by
      simp [render]
    have hright : Lexes false (right.render.toList ++ ')' :: rest)
        (kinds' ++ .rightParen :: more) := hright.lexes_symbol (by simp) hmore
    rw [htext]
    simp only [List.cons_append, List.append_assoc, List.nil_append]
    refine .symbol rfl (by decide) (hleft.lexes (closes_operator op _) (fun _ => rfl) ?_)
    exact .blank rfl (lexes_operator (fun hop => by rw [hlegible hop]; rfl) hright)
  readable := by
    refine readable_of_value rfl (fun _ => rfl) fun rest => ?_
    have hsign : left.isRoot = true → ∀ ts, startsStep (op.token :: ts) = false := by
      intro hroot
      cases hop : op.isStepLike with
      | false => exact startsStep_token hop
      | true => exact absurd ((hlegible hop).symm.trans hroot) (by decide)
    have hrightSigned : Derives (.signed right.unsigned.flat) (kinds' ++ .rightParen :: rest)
        (.rightParen :: rest) := hright.signed hrightStep fun _ => rfl
    have hoperands := Derives.operation
      ((hleft.signed hleftStep fun hroot => hsign hroot _).operation_of_signed op.level)
      op.mem_operators (hrightSigned.operand_of_signed op.level)
    simp only [List.cons_append, List.append_assoc, List.nil_append, unsigned, flat]
    exact .plain (.parenthesised hoperands.whole_of_operation)

theorem printed_union (hleft : Printed left kinds) (hright : Printed right kinds')
    (hleftStep : left.isStep = false) (hrightStep : right.isStep = false)
    (hleftNeg : left.unsigned.isNegation = false)
    (hrightNeg : right.unsigned.isNegation = false) :
    Printed (union left right) (.leftParen :: (kinds ++ .pipe :: (kinds' ++ [.rightParen]))) where
  lexes {rest more} _ _ hmore := by
    have htext : (union left right).render.toList ++ rest = '(' :: (left.render.toList ++
        ' ' :: '|' :: ' ' :: (right.render.toList ++ ')' :: rest)) := by
      simp [render]
    have hright : Lexes false (right.render.toList ++ ')' :: rest)
        (kinds' ++ .rightParen :: more) := hright.lexes_symbol (by simp) hmore
    rw [htext]
    simp only [List.cons_append, List.append_assoc, List.nil_append]
    refine .symbol rfl (by decide) (hleft.lexes (closes_pipe _) (fun _ => rfl) ?_)
    exact .blank rfl (.symbol rfl (by decide) (.blank rfl hright))
  readable := by
    refine readable_of_value rfl (fun _ => rfl) fun rest => ?_
    have hoperands := Derives.union
      (.member (hleft.readable.path ((isStep_unsigned left).trans hleftStep) hleftNeg
        (.pipe :: (kinds' ++ .rightParen :: rest)) fun _ => rfl))
      (hright.readable.path ((isStep_unsigned right).trans hrightStep) hrightNeg
        (.rightParen :: rest) fun _ => rfl)
    simp only [List.cons_append, List.append_assoc, List.nil_append, unsigned, flat]
    exact .plain (.parenthesised ((Derives.unsigned hoperands).operation_of_signed .or))

theorem printed_negate (h : Printed operand kinds) (hstep : operand.isStep = false) :
    Printed (negate operand) (.minus :: .leftParen :: (kinds ++ [.rightParen])) where
  lexes {rest more} _ _ hmore := by
    have htext : (negate operand).render.toList ++ rest =
        '-' :: '(' :: (operand.render.toList ++ ')' :: rest) := by
      simp [render]
    rw [htext]
    simp only [List.cons_append, List.append_assoc, List.nil_append]
    exact .symbol rfl (by decide) (h.lexes_parenthesised hmore)
  readable := readable_negate ((isStep_unsigned operand).trans hstep) h.readable

theorem printed_filter {predicates : List Expr} (h : Printed operand kinds)
    (hstep : operand.isStep = false) (hpredicates : ∀ e ∈ predicates, e.Printable)
    (hne : predicates ≠ []) : ∃ kinds, Printed (filter operand predicates) kinds := by
  obtain ⟨kinds', hlexes, hderives⟩ := printed_predicates hpredicates
  refine ⟨.leftParen :: (kinds ++ .rightParen :: kinds'), fun {rest more} _ _ hmore => ?_,
    readable_of_value rfl (fun _ => rfl) fun rest => ?_⟩
  · have htext : (filter operand predicates).render.toList ++ rest =
        '(' :: (operand.render.toList ++
          ')' :: ((renderPredicates predicates).toList ++ rest)) := by
      simp [render]
    rw [htext]
    simp only [List.cons_append, List.append_assoc]
    exact h.lexes_parenthesised (hlexes hmore)
  · have hwhole : Derives (.whole operand.unsigned.flat) (kinds ++ .rightParen :: (kinds' ++ rest))
        (.rightParen :: (kinds' ++ rest)) := h.whole hstep rfl
    simp only [List.cons_append, List.append_assoc, unsigned, flat]
    exact .filter (.parenthesised hwhole) (hderives rest)
      (by simpa [flatAll_eq_map, unsignedAll_eq_map] using hne)

theorem printed_call {name : String} {args : List Expr} (hname : FunctionName name)
    (hargs : ∀ e ∈ args, e.Printable) : ∃ kinds, Printed (call name args) kinds := by
  obtain ⟨kind, htoken, hcall⟩ := lexes_functionName hname
  have htext : ∀ rest, (call name args).render.toList ++ rest =
      name.toList ++ '(' :: ((renderJoined ", " args).toList ++ ')' :: rest) := by
    simp [render]
  cases args with
  | nil =>
      refine ⟨[kind, .leftParen, .rightParen], fun {rest more} _ _ hmore => ?_,
        readable_of_value rfl (fun _ => rfl) fun rest => .plain (.emptyCall htoken)⟩
      rw [htext]
      exact hcall (.symbol rfl (by decide) hmore)
  | cons e es =>
      obtain ⟨kinds, hlexes, hderives⟩ := printed_arguments hargs
      refine ⟨kind :: .leftParen :: (kinds ++ [.rightParen]), fun {rest more} _ _ hmore => ?_,
        readable_of_value rfl (fun _ => rfl) fun rest => ?_⟩
      · rw [htext]
        simp only [List.cons_append, List.append_assoc, List.nil_append]
        exact hcall (hlexes hmore)
      · simp only [List.cons_append, List.append_assoc, List.nil_append, unsigned, flat]
        exact .plain (.call htoken (hderives rest))

theorem printed_string {text : String} (h : '\"' ∉ text.toList ∨ '\x27' ∉ text.toList) :
    Printed (string text) [.string text] where
  lexes _ _ hmore := .token (cuts_literal h _ false) hmore
  readable := readable_of_value rfl (fun _ => rfl) fun _ => .plain .string

theorem printed_reference {name : String} (h : IsName name) :
    Printed (reference name) [.reference name] where
  lexes {rest more} hrest _ hmore := by
    have htext : (reference name).render.toList = '$' :: name.toList := by simp [render]
    rw [htext]
    exact .token (cuts_reference h hrest.stops_name false) hmore
  readable := readable_of_value rfl (fun _ => rfl) fun _ => .plain .reference

theorem printed_number {value : Number} (h : ∃ digits places, value = .ofDecimal digits places)
    (hlegible : value ≠ .infinite false) : Printed (number value) [.number value] where
  lexes {rest more} hrest _ hmore := by
    obtain ⟨digits, places, hvalue⟩ := h
    have hfinite : ∃ count isCount, value = .finite false count isCount := by
      rw [Number.ofDecimal, Number.ofRatio] at hvalue
      split at hvalue
      · exact ⟨_, _, hvalue⟩
      · exact absurd hvalue hlegible
    obtain ⟨count, isCount, rfl⟩ := hfinite
    obtain ⟨whole, fraction, hspelled, hread⟩ := Number.spelled_render isCount
    have hcuts := cuts_number hspelled hrest.stops_digit hrest.stops_point false
    rw [hread] at hcuts
    exact .token hcuts hmore
  readable := by
    obtain ⟨digits, places, hvalue⟩ := h
    have hunsigned : (number value).unsigned = number value := by
      rw [hvalue]
      exact unsigned_of_not_lt (Number.ofDecimal_lt_zero digits places)
    rw [hunsigned]
    exact readable_of_value rfl (fun _ => rfl) fun _ => .plain .number

/-- A negative number is written, and read, as a minus sign and its absolute value. -/
theorem printed_negative {value : Number} (hneg : value.lt .zero = true)
    (h : Printed (number value.abs) [.number value.abs]) :
    Printed (number value) [.minus, .number value.abs] where
  lexes {rest more} hrest _ hmore := by
    have htext : (number value).render.toList = '-' :: (number value.abs).render.toList := by
      rw [render, render]
      exact Number.toList_render_of_lt_zero hneg
    rw [htext]
    exact .symbol rfl (by decide) (h.lexes hrest (fun hroot => by cases hroot) hmore)
  readable := by
    rw [unsigned_of_lt hneg]
    exact readable_negative value.abs

end

/-! ## Reading back -/

/-- Every legible expression that tokens can be read as has a text that is read as its tokens. The
parts of a path are steps, so the induction goes over all parts, whatever their form. -/
theorem exists_printed {e : Expr} (hproper : e.unsigned.Everywhere Proper)
    (hlegible : e.unsigned.Everywhere Legible) : ∃ kinds, Printed e kinds := by
  induction e using induction_on_children with
  | h e ih =>
      obtain ⟨hproper, hproperParts⟩ := everywhere_iff.mp hproper
      obtain ⟨hlegible, hlegibleParts⟩ := everywhere_iff.mp hlegible
      have hparts : ∀ part ∈ e.children, ∃ kinds, Printed part kinds := fun part hp =>
        ih part hp (hproperParts _ (unsigned_mem_children hp))
          (hlegibleParts _ (unsigned_mem_children hp))
      cases e with
      | absolute parts =>
          simp only [unsigned, Proper, forall_mem_unsignedAll, isStep_unsigned] at hproper
          cases parts with
          | nil => exact ⟨_, printed_root⟩
          | cons part parts => exact printed_absolute fun p hp => ⟨hproper p hp, hparts p hp⟩
      | relative parts =>
          obtain ⟨first, rest, hsplit, hrest, hform⟩ := hproper
          cases parts with
          | nil => cases hsplit
          | cons first rest =>
              cases hsplit
              simp only [forall_mem_unsignedAll, isStep_unsigned] at hrest hform
              obtain ⟨kinds, hfirst⟩ := hparts first List.mem_cons_self
              cases rest with
              | nil => exact ⟨kinds, printed_single (hform.resolve_right (· rfl)) hfirst⟩
              | cons part rest =>
                  obtain ⟨hroot, hneg⟩ := legible_relative.mp hlegible
                  exact printed_relative hfirst ((isRoot_unsigned first).symm.trans hroot) hneg
                    fun p hp => ⟨hrest p hp, hparts p (List.mem_cons_of_mem _ hp)⟩
      | step axis test predicates =>
          simp only [unsigned, Proper, forall_mem_unsignedAll, isStep_unsigned] at hproper
          exact printed_step hproper.1 hlegible fun p hp => ⟨hproper.2 p hp, hparts p hp⟩
      | filter primary predicates =>
          simp only [unsigned, Proper, forall_mem_unsignedAll, isStep_unsigned] at hproper
          obtain ⟨hne, hstep, hsteps⟩ := hproper
          obtain ⟨kinds, hprimary⟩ := hparts primary List.mem_cons_self
          refine printed_filter hprimary hstep (fun p hp => ⟨hsteps p hp,
            hparts p (List.mem_cons_of_mem _ hp)⟩) ?_
          rintro rfl
          exact hne rfl
      | binary op left right =>
          simp only [unsigned, Proper, isStep_unsigned] at hproper
          simp only [unsigned, Legible, isRoot_unsigned] at hlegible
          obtain ⟨kinds, hleft⟩ := hparts left (by simp [children])
          obtain ⟨kinds', hright⟩ := hparts right (by simp [children])
          exact ⟨_, printed_binary hleft hright hproper.1 hproper.2 hlegible⟩
      | union left right =>
          simp only [unsigned, Proper, isStep_unsigned] at hproper
          obtain ⟨kinds, hleft⟩ := hparts left (by simp [children])
          obtain ⟨kinds', hright⟩ := hparts right (by simp [children])
          exact ⟨_, printed_union hleft hright hproper.1 hproper.2 hlegible.1 hlegible.2⟩
      | negate operand =>
          simp only [unsigned, Proper, isStep_unsigned] at hproper
          obtain ⟨kinds, hoperand⟩ := hparts operand (by simp [children])
          exact ⟨_, printed_negate hoperand hproper⟩
      | string text => exact ⟨_, printed_string hproper⟩
      | number value =>
          cases hneg : value.lt .zero with
          | false =>
              rw [unsigned_of_not_lt hneg] at hproper hlegible
              exact ⟨_, printed_number hproper hlegible⟩
          | true =>
              rw [unsigned_of_lt hneg] at hproperParts hlegibleParts
              have hmem : number value.abs ∈ (negate (number value.abs)).children :=
                List.mem_singleton.mpr rfl
              obtain ⟨hproper, -⟩ := everywhere_iff.mp (hproperParts _ hmem)
              obtain ⟨hlegible, -⟩ := everywhere_iff.mp (hlegibleParts _ hmem)
              exact ⟨_, printed_negative hneg (printed_number hproper hlegible)⟩
      | call name args =>
          simp only [unsigned, Proper, forall_mem_unsignedAll, isStep_unsigned] at hproper
          exact printed_call hproper.1 fun p hp => ⟨hproper.2 p hp, hparts p hp⟩
      | reference name => exact ⟨_, printed_reference hproper⟩

/-- The text of a legible expression is read as the flat expression without negative numbers. -/
theorem parse_render_unsigned {e : Expr} (h : e.unsigned.Whole)
    (hlegible : e.unsigned.Everywhere Legible) : parse e.render = .ok e.unsigned.flat := by
  obtain ⟨kinds, hprinted⟩ := exists_printed h.2 hlegible
  have hlexes := hprinted.lexes closes_nil (fun _ => rfl) .nil
  have hderives := hprinted.readable.whole h.1 (rfl : startsStep [] = false)
  rw [List.append_nil] at hlexes hderives
  rw [List.append_nil] at hlexes
  exact parse_of_lexes hlexes hderives

/-- The text of a legible expression that is read from tokens is read as the flat expression. -/
theorem parse_render {e : Expr} (h : e.Whole) (hlegible : e.Everywhere Legible) :
    parse e.render = .ok e.flat := by
  have hparse := parse_render_unsigned (e := e)
  rw [unsigned_of_proper h.2] at hparse
  exact hparse h hlegible

theorem exists_printed_of_proper {e : Expr} (hproper : e.Everywhere Proper)
    (hlegible : e.Everywhere Legible) : ∃ kinds, Printed e kinds := by
  apply exists_printed <;> rwa [unsigned_of_proper hproper]

theorem parse_of_signed {text : String} {kinds : List TokenKind} {e : Expr}
    (htext : Lexes false text.toList kinds) (h : Derives (.signed e) kinds []) :
    parse text = .ok e :=
  parse_of_lexes htext (h.operation_of_signed .or)

/-- Steps from the document node itself are read as steps from all nodes: the slash that stands for
it and the one behind it make a double slash. -/
theorem parse_render_root_steps {e : Expr} {es : List Expr}
    (h : ∀ part ∈ e :: es, part.Part ∧ part.Everywhere Legible) :
    parse (relative (absolute [] :: e :: es)).render =
      .ok (absolute (anyDepth :: flatAll (e :: es))) := by
  obtain ⟨kinds, hsteps⟩ := printed_steps fun part hp =>
    ⟨(h part hp).1.1, exists_printed_of_proper (h part hp).1.2 (h part hp).2⟩
  have htext : (relative (absolute [] :: e :: es)).render.toList =
      '/' :: '/' :: ((renderJoined "/" (e :: es)).toList ++ []) := by
    simp [render, renderJoined]
  have hderives := hsteps.derives []
  rw [unsignedAll_of_proper fun part hp => (h part hp).1.2] at hderives
  have hlexes := hsteps.lexes closes_nil .nil
  have hslashes : Lexes false ('/' :: '/' :: ((renderJoined "/" (e :: es)).toList ++ []))
      (.doubleSlash :: (kinds ++ [])) := .token ⟨'/', ['/'], rfl, rfl, rfl⟩ hlexes
  rw [← htext] at hslashes
  exact parse_of_signed hslashes (.unsigned (.member (.absoluteAnyDepth hderives)))

theorem Printed.value_parenthesised {e : Expr} {kinds rest : List TokenKind} (he : Printed e kinds)
    (hwhole : e.Whole) :
    Derives (.value e.flat) (.leftParen :: (kinds ++ .rightParen :: rest)) rest := by
  have hderives := he.whole hwhole.1 (rfl : startsStep (.rightParen :: rest) = false)
  rw [unsigned_of_proper hwhole.2] at hderives
  exact .plain (.parenthesised hderives)

/-- A minus sign that belongs to the left operand of a union is read as one of the union. -/
theorem parse_render_union_negate {left right : Expr} (hleft : left.Whole)
    (hright : right.Whole) (hleftLegible : left.Everywhere Legible)
    (hrightLegible : right.Everywhere Legible) (hneg : right.isNegation = false) :
    parse (union (negate left) right).render = .ok (negate (union left.flat right.flat)) := by
  obtain ⟨kinds, hleftPrinted⟩ := exists_printed_of_proper hleft.2 hleftLegible
  obtain ⟨kinds', hrightPrinted⟩ := exists_printed_of_proper hright.2 hrightLegible
  have htext : (union (negate left) right).render.toList = '(' :: '-' ::
      '(' :: (left.render.toList ++
        ')' :: ' ' :: '|' :: ' ' :: (right.render.toList ++ [')'])) := by
    simp [render]
  have hbehind : Lexes false (right.render.toList ++ [')']) (kinds' ++ [.rightParen]) :=
    hrightPrinted.lexes_symbol (by simp) .nil
  have hpipe : Lexes true (' ' :: '|' :: ' ' :: (right.render.toList ++ [')']))
      (.pipe :: (kinds' ++ [.rightParen])) :=
    .blank rfl (.symbol rfl (by decide) (.blank rfl hbehind))
  have hlexes : Lexes false ('(' :: '-' :: '(' :: (left.render.toList ++
      ')' :: ' ' :: '|' :: ' ' :: (right.render.toList ++ [')'])))
      (.leftParen :: .minus :: .leftParen :: (kinds ++ .rightParen :: .pipe ::
        (kinds' ++ [.rightParen]))) :=
    .symbol rfl (by decide) (.symbol rfl (by decide) (hleftPrinted.lexes_parenthesised hpipe))
  rw [← htext] at hlexes
  have hreadable := hrightPrinted.readable
  rw [unsigned_of_proper hright.2] at hreadable
  have hunion := Derives.union (.member (.valuePath (hleftPrinted.value_parenthesised hleft)))
    (hreadable.path hright.1 hneg [.rightParen] fun _ => rfl)
  have hoperand := (Derives.minus (.unsigned hunion)).operation_of_signed .or
  exact parse_of_signed hlexes (.unsigned (.member (.valuePath (.plain (.parenthesised hoperand)))))

/-- A minus sign in front of the first part of a path is read as one of the path. -/
theorem parse_render_negate_steps {first e : Expr} {es : List Expr} (hfirst : first.Whole)
    (hlegible : first.Everywhere Legible)
    (h : ∀ part ∈ e :: es, part.Part ∧ part.Everywhere Legible) :
    parse (relative (negate first :: e :: es)).render =
      .ok (negate (relative (first.flat :: flatAll (e :: es)))) := by
  obtain ⟨kinds, hprinted⟩ := exists_printed_of_proper hfirst.2 hlegible
  obtain ⟨kinds', hsteps⟩ := printed_steps fun part hp =>
    ⟨(h part hp).1.1, exists_printed_of_proper (h part hp).1.2 (h part hp).2⟩
  have htext : (relative (negate first :: e :: es)).render.toList = '-' :: '(' ::
      (first.render.toList ++ ')' :: '/' :: ((renderJoined "/" (e :: es)).toList ++ [])) := by
    simp [render, renderJoined]
  have hslash : Lexes true ('/' :: ((renderJoined "/" (e :: es)).toList ++ []))
      (.slash :: (kinds' ++ [])) := .slash (hsteps.slash []) (hsteps.lexes closes_nil .nil)
  have hlexes : Lexes false ('-' :: '(' :: (first.render.toList ++
      ')' :: '/' :: ((renderJoined "/" (e :: es)).toList ++ [])))
      (.minus :: .leftParen :: (kinds ++ .rightParen :: .slash :: (kinds' ++ []))) :=
    .symbol rfl (by decide) (hprinted.lexes_parenthesised hslash)
  rw [← htext] at hlexes
  have hderives := hsteps.derives []
  rw [unsignedAll_of_proper fun part hp => (h part hp).1.2] at hderives
  have hpath := Derives.valueSteps (hprinted.value_parenthesised hfirst) hderives
  exact parse_of_signed hlexes (.minus (.unsigned (.member hpath)))

/-- The text of an expression that is read from a text is read in turn, and what it is read as has
the same outcome, evaluated or run, where the expression is legible. -/
theorem outcome_of_parse_render {text : String} {e : Expr} (h : parse text = .ok e)
    (hlegible : e.Everywhere Legible) :
    ∃ e', parse e.render = .ok e' ∧ ∀ (v : View) (options : QueryOptions) (focus : Focus),
      e'.eval v options focus = e.eval v options focus ∧
        e'.compile.run v options focus = e.compile.run v options focus := by
  obtain ⟨tokens, htokens, hderives⟩ := derives_of_parse h
  have hwritten : Written (tokens.map (·.kind)) := by
    rw [← (toList_eq_ok htokens).1]
    exact Tokens.written_ofText text
  have hwhole : e.Whole := hderives.proper hwritten
  have hparse := parse_render hwhole hlegible
  refine ⟨e.flat, hparse, fun v options focus => ?_⟩
  have hsame : e.flat.eval v options focus = e.eval v options focus := same_flat hwhole.2 focus
  have hrun : e.compile.run v options focus = e.eval v options focus :=
    (agrees_of_wellFormed (wellFormed_of_parse h)).run focus
  have hrun' : e.flat.compile.run v options focus = e.flat.eval v options focus :=
    (agrees_of_wellFormed (wellFormed_of_parse hparse)).run focus
  exact ⟨hsame, hrun'.trans (hsame.trans hrun.symm)⟩

theorem outcome_of_parse_render_nested :
    let e := relative [relative [step .child (.name "a") [string "x"], step .child .any []],
      step .child (.name "b") []]
    parse "(a['x']/*)/b" = .ok e ∧ e.Everywhere Legible ∧
      ∃ e', parse "child::a[\"x\"]/child::*/child::b" = .ok e' ∧ ∀ v options focus,
        e'.eval v options focus = e.eval v options focus ∧
          e'.compile.run v options focus = e.compile.run v options focus := by
  intro e
  have htokens : Tokens.ofText "(a['x']/*)/b" =
      ⟨[⟨.leftParen, ⟨1, 1⟩⟩, ⟨.name "a", ⟨1, 2⟩⟩, ⟨.leftBracket, ⟨1, 3⟩⟩, ⟨.string "x", ⟨1, 4⟩⟩,
        ⟨.rightBracket, ⟨1, 7⟩⟩, ⟨.slash, ⟨1, 8⟩⟩, ⟨.star, ⟨1, 9⟩⟩, ⟨.rightParen, ⟨1, 10⟩⟩,
        ⟨.slash, ⟨1, 11⟩⟩, ⟨.name "b", ⟨1, 12⟩⟩], .ok ⟨1, 13⟩⟩ :=
    Tokens.ext (by decide +kernel) (by decide +kernel)
  have hparse : parse "(a['x']/*)/b" = .ok e := by
    rw [parse, htokens]
    rfl
  have hrender : e.render = "child::a[\"x\"]/child::*/child::b" := by decide +kernel
  have hlegible : e.Everywhere Legible := by
    have hx : (string "x").Everywhere Legible := .intro trivial (List.forall_mem_nil _)
    have ha : (step .child (.name "a") [string "x"]).Everywhere Legible :=
      .intro trivial (List.forall_mem_cons.mpr ⟨hx, List.forall_mem_nil _⟩)
    have hany : (step .child .any []).Everywhere Legible := .intro trivial (List.forall_mem_nil _)
    have hb : (step .child (.name "b") []).Everywhere Legible :=
      .intro trivial (List.forall_mem_nil _)
    have hfirst : (relative [step .child (.name "a") [string "x"], step .child .any []]).Everywhere
        Legible := .intro (legible_relative.mpr ⟨rfl, rfl⟩) (by simp [children, ha, hany])
    exact .intro (legible_relative.mpr ⟨rfl, rfl⟩)
      (List.forall_mem_cons.mpr ⟨hfirst, List.forall_mem_cons.mpr ⟨hb, List.forall_mem_nil _⟩⟩)
  exact ⟨hparse, hlegible, hrender ▸ outcome_of_parse_render hparse hlegible⟩

/-- Two texts whose expressions are not legible: the text of the first is not read, and that of the
second leads to other nodes. -/
theorem outcome_of_parse_render_fails :
    (∃ e, parse "processing-instruction(\"a'b\")" = .ok e ∧ ∀ e', parse e.render ≠ .ok e') ∧
    ∃ e e', parse "(/)/a" = .ok e ∧ parse e.render = .ok e' ∧
      let v := (Document.ofEvents [.start "r" [], .empty "a" [], .close]).view
      e.eval v {} { node := 0 } = .ok (.nodes []) ∧
        e'.eval v {} { node := 0 } = .ok (.nodes [2]) := by
  constructor
  · have htokens : Tokens.ofText "processing-instruction(\"a'b\")" =
        ⟨[⟨.nodeType "processing-instruction", ⟨1, 1⟩⟩, ⟨.leftParen, ⟨1, 23⟩⟩,
          ⟨.string "a'b", ⟨1, 24⟩⟩, ⟨.rightParen, ⟨1, 29⟩⟩], .ok ⟨1, 30⟩⟩ :=
      Tokens.ext (by decide +kernel) (by decide +kernel)
    have hparse : parse "processing-instruction(\"a'b\")" =
        .ok (relative [step .child (.instruction (some "a'b")) []]) := by
      rw [parse, htokens]
      rfl
    have hrender : (relative [step .child (.instruction (some "a'b")) []]).render =
        "child::processing-instruction('a'b')" := by decide +kernel
    have hfails : (parse "child::processing-instruction('a'b')").toOption = none := by
      decide +kernel
    refine ⟨_, hparse, fun e' h => ?_⟩
    rw [← hrender, h] at hfails
    cases hfails
  · have htokens : Tokens.ofText "(/)/a" =
        ⟨[⟨.leftParen, ⟨1, 1⟩⟩, ⟨.slash, ⟨1, 2⟩⟩, ⟨.rightParen, ⟨1, 3⟩⟩, ⟨.slash, ⟨1, 4⟩⟩,
          ⟨.name "a", ⟨1, 5⟩⟩], .ok ⟨1, 6⟩⟩ := Tokens.ext (by decide +kernel) (by decide +kernel)
    have hparse : parse "(/)/a" = .ok (relative [absolute [], step .child (.name "a") []]) := by
      rw [parse, htokens]
      rfl
    have hrender : (relative [absolute [], step .child (.name "a") []]).render = "//child::a" := by
      decide +kernel
    have htokens' : Tokens.ofText "//child::a" =
        ⟨[⟨.doubleSlash, ⟨1, 1⟩⟩, ⟨.axis "child", ⟨1, 3⟩⟩, ⟨.doubleColon, ⟨1, 8⟩⟩,
          ⟨.name "a", ⟨1, 10⟩⟩], .ok ⟨1, 11⟩⟩ := Tokens.ext (by decide +kernel) (by decide +kernel)
    have hparse' : parse "//child::a" = .ok (absolute [anyDepth, step .child (.name "a") []]) := by
      rw [parse, htokens']
      rfl
    let v := (Document.ofEvents [.start "r" [], .empty "a" [], .close]).view
    have hall : Selection.step v {} .descendantOrSelf .node [] [0] = .ok [0, 1, 2] :=
      Selection.step_of_found [0, 1, 2] (by decide +kernel) (by decide) (by decide) (by decide)
    have heval : (absolute [anyDepth, step .child (.name "a") []]).eval v {} { node := 0 } =
        .ok (.nodes [2]) := by
      have hsteps : evalSteps v {} [anyDepth, step .child (.name "a") []] [0] =
          Selection.step v {} .descendantOrSelf .node [] [0] >>=
            evalSteps v {} [step .child (.name "a") []] := rfl
      rw [eval, View.documentNode, hsteps, hall]
      decide +kernel
    exact ⟨_, _, hparse, hrender ▸ hparse', by decide +kernel, heval⟩

end TreeQuery.Expr
