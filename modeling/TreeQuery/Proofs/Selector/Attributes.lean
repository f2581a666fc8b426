import Mathlib.Data.List.Infix
import TreeQuery.Proofs.Function.Text
import TreeQuery.Proofs.Selector.Positions
import TreeQuery.Proofs.Text.Pieces

/-!
Conditions on attributes. Each operator is an expression of its own kind, and each of them says how
the text of an attribute lies to the operand. An attribute that is not there counts as the empty
text, and words are looked for between spaces.
-/
namespace TreeQuery.Selector

open TreeQuery.Expr
open TreeQuery.Number (Whole)
open TreeQuery.Text (IsWord isWordBlank words)

/-- How the text of an attribute lies to the operand of an operator. -/
def AttrOp.Fits (value operand : String) : AttrOp → Prop
  | equals => value = operand
  | includes => operand.toList.splitOn ' ' <:+: value.toList.splitOn ' '
  | dashMatch => value = operand ∨ operand.toList ++ ['-'] <+: value.toList
  | startsWith => operand.toList <+: value.toList
  | endsWith => operand.toList <:+ value.toList
  | contains => operand.toList <:+: value.toList

/-! ## Calls on texts -/

section
variable {v : View} {options : QueryOptions} {focus : Focus} {a b attr : Expr} {x y : Value}
  {ids : List NodeId} {operand value : String}

theorem eval_string (text : String) :
    (Expr.string text).eval v options focus = .ok (.string text) := by
  simp only [eval]

theorem evalArgs_two (ha : a.eval v options focus = .ok x) (hb : b.eval v options focus = .ok y) :
    evalArgs v options [a, b] focus = .ok [x, y] :=
  evalArgs_cons ha (evalArgs_cons hb rfl)

theorem eval_concat {args : List Expr} {values : List Value}
    (h : evalArgs v options args focus = .ok values) (hlength : 2 ≤ values.length) :
    (call "concat" args).eval v options focus =
      .ok (.string (String.join (values.map (·.toString v)))) := by
  refine (eval_call .concat h).trans ?_
  rw [Function.call, if_pos (by simp [Function.arity, Arity.admits, hlength])]
  rfl

theorem eval_stringLength (ha : a.eval v options focus = .ok x) :
    (call "string-length" [a]).eval v options focus = .ok (.ofNat (x.toString v).length) :=
  (eval_call .stringLength (evalArgs_cons ha rfl)).trans rfl

theorem says_contains (ha : a.eval v options focus = .ok x) (hb : b.eval v options focus = .ok y) :
    Says v options focus (call "contains" [a, b])
      ((y.toString v).toList <:+: (x.toString v).toList) :=
  ⟨_, eval_call .contains (evalArgs_two ha hb), Function.containsText_iff⟩

theorem says_startsWith (ha : a.eval v options focus = .ok x)
    (hb : b.eval v options focus = .ok y) :
    Says v options focus (call "starts-with" [a, b])
      ((y.toString v).toList <+: (x.toString v).toList) :=
  ⟨_, eval_call .startsWith (evalArgs_two ha hb), Function.startsWithText_iff⟩

/-! ## Operators -/

/-- What a text has from the place on at which the operand would start is the operand just when the
text ends with it. An operand that is longer than the text has no such place, and need not. -/
theorem charsFrom_eq_iff {start : Number} (hlength : value.length ≤ Nat.pow 2 51)
    (hstart : operand.length ≤ value.length →
      Whole start (value.length - operand.length + 1 : Nat)) :
    Function.charsFrom value start.round (.infinite false) = operand ↔
      operand.toList <:+ value.toList := by
  have hpow : Nat.pow 2 51 + 1 < Nat.pow 2 52 ∧ Nat.pow 2 51 ≤ Nat.pow 2 53 := by decide
  by_cases hle : operand.length ≤ value.length
  · have hfirst := (hstart hle).round (by omega) (by omega)
    rw [Function.charsFrom_eq_drop hfirst (by omega), List.suffix_iff_eq_drop, String.length_toList,
      String.length_toList, ← String.toList_inj, String.toList_ofList, eq_comm]
  · have hshorter := Function.length_charsFrom_le value start.round (.infinite false)
    refine iff_of_false (fun heq => ?_) (fun hsuffix => ?_)
    · rw [heq] at hshorter
      exact hle hshorter
    · have hshort := hsuffix.length_le
      rw [String.length_toList, String.length_toList] at hshort
      exact hle hshort

/-- Where the operand would start in a text that is not too long, counted from one. -/
theorem whole_start (hlength : value.length ≤ Nat.pow 2 51)
    (hle : operand.length ≤ value.length) :
    Whole (Number.ofNat value.length - Number.ofNat operand.length + Number.ofInt 1)
      (value.length - operand.length + 1 : Nat) := by
  have hpow : Nat.pow 2 51 + 1 ≤ Nat.pow 2 53 := by decide
  have hvalue : Whole (Number.ofNat value.length) value.length := Number.whole_ofNat (by omega)
  have hoperand : Whole (Number.ofNat operand.length) operand.length :=
    Number.whole_ofNat (by omega)
  have hone : Whole (Number.ofInt 1) 1 := Number.whole_ofInt (by decide)
  have hplace : (value.length - operand.length + 1 : Int) =
      (value.length - operand.length + 1 : Nat) := by omega
  rw [← hplace]
  exact (hvalue.sub hoperand (by omega)).add hone (by omega)

theorem says_endsWith (h : attr.eval v options focus = .ok x)
    (hlength : (x.toString v).length ≤ Nat.pow 2 51) :
    Says v options focus (AttrOp.endsWith.condition attr operand)
      (operand.toList <:+ (x.toString v).toList) := by
  have hoperand := @eval_string v options focus operand
  have hone : (integer 1).eval v options focus = .ok (.number (.ofInt 1)) := by
    simp only [integer, eval]
  have hdifference := eval_binary .sub (eval_stringLength h) (eval_stringLength hoperand)
  have hstart := eval_binary .add hdifference hone
  have hrest := eval_call .substring (evalArgs_two h hstart)
  refine ⟨_, eval_binary .eq hrest hoperand, beq_iff_eq.trans ?_⟩
  exact charsFrom_eq_iff hlength (whole_start hlength)

theorem toList_join_spaced (text : String) :
    (String.join [" ", text, " "]).toList = ' ' :: text.toList ++ [' '] := by
  simp

theorem toList_join_dashed (text : String) :
    (String.join [text, "-"]).toList = text.toList ++ ['-'] := by
  simp

/-- Each operator says how the text of an attribute lies to its operand. -/
theorem AttrOp.says_condition (op : AttrOp) (h : attr.eval v options focus = .ok (.nodes ids))
    (hvalue : (Value.nodes ids).toString v = value)
    (hlength : op = .endsWith → value.length ≤ Nat.pow 2 51) :
    Says v options focus (op.condition attr operand) (op.Fits value operand) := by
  subst hvalue
  have hoperand := @eval_string v options focus operand
  have hequals : Says v options focus (.binary .eq attr (.string operand))
      ((Value.nodes ids).toString v = operand) :=
    ⟨_, eval_binary .eq h hoperand, beq_iff_eq⟩
  cases op with
  | equals => exact hequals
  | includes =>
      have hspace := @eval_string v options focus " "
      have hvalue := eval_concat (evalArgs_cons hspace (evalArgs_two h hspace)) (by simp)
      have hsought := eval_concat (evalArgs_cons hspace (evalArgs_two hoperand hspace)) (by simp)
      refine (says_contains hvalue hsought).congr ?_
      rw [Fits, ← Text.padded_infix_iff, ← toList_join_spaced, ← toList_join_spaced]
      rfl
  | dashMatch =>
      have hdash := @eval_string v options focus "-"
      have hdashed := eval_concat (evalArgs_two hoperand hdash) (by simp)
      refine (hequals.or (says_startsWith h hdashed)).congr ?_
      rw [Fits, ← toList_join_dashed]
      rfl
  | startsWith =>
      -- Elaborated against the goal, the call would have its name and the texts unfolded.
      have hstarts := says_startsWith h hoperand
      exact hstarts
  | endsWith => exact says_endsWith h (hlength rfl)
  | contains =>
      have hcontains := says_contains h hoperand
      exact hcontains

/-- Only an empty operand fits an empty text. -/
theorem AttrOp.fits_empty_iff (op : AttrOp) : op.Fits "" operand ↔ operand = "" := by
  have hempty : operand.toList = [] ↔ operand = "" := String.toList_eq_nil_iff
  cases op with
  | equals => exact eq_comm
  | includes =>
      rw [Fits, ← Text.padded_infix_iff, ← hempty]
      refine ⟨fun h => List.eq_nil_of_length_eq_zero ?_, fun h => by rw [h]; exact List.infix_rfl⟩
      have hlength := h.length_le
      simp only [List.length_append, List.length_cons, List.length_nil, String.toList_empty] at hlength
      omega
  | dashMatch =>
      rw [Fits, String.toList_empty, List.prefix_nil, eq_comm]
      exact or_iff_left (by simp)
  | startsWith => rw [Fits, String.toList_empty, List.prefix_nil, hempty]
  | endsWith => rw [Fits, String.toList_empty, List.suffix_nil, hempty]
  | contains => rw [Fits, String.toList_empty, List.infix_nil, hempty]

end

/-! ## Attributes of a node -/

/-- A node has an attribute that a selector names. -/
def HasNamed (d : Document) (options : QueryOptions) (pfx : Option NamePart) (name : String)
    (id : NodeId) : Prop :=
  ∃ attr ∈ d.attributes id,
    ((NamePart.test pfx (.name name)).ready .attributes).fits d.view options.aliases attr = true

/-- The first attribute of a name that is written without prefix. -/
def plainAttr? (d : Document) (name : String) (id : NodeId) : Option NodeId :=
  (d.attributes id).find? fun attr =>
    (d.view.pfx? attr).isNone && d.view.localName? attr == some name

/-- The text of the first attribute of a name without prefix; it is empty when there is none. -/
def attrText (d : Document) (name : String) (id : NodeId) : String :=
  ((plainAttr? d name id).map d.view.stringValue).getD ""

section
variable {d : Document} {options : QueryOptions} {focus : Focus} {id : NodeId}
  {name value operand : String}

theorem chosen_attributes_eq_nil_iff {pfx : Option NamePart} :
    chosen d.view options .attributes (NamePart.test pfx (.name name)) [] id = [] ↔
      ¬ HasNamed d options pfx name id := by
  rw [List.eq_nil_iff_forall_not_mem, HasNamed]
  simp only [mem_chosen_plain, not_exists]
  rfl

theorem decides_named (d : Document) (options : QueryOptions) (focus : Focus)
    (pfx : Option NamePart) (name : String) :
    Decides d.view options focus (AttrSelector.condition ⟨pfx, name, none⟩)
      (HasNamed d options pfx name focus.node) := by
  have heval := @eval_stepPath d options .attributes (NamePart.test pfx (.name name)) focus
  refine ⟨_, heval, ((agrees_of_wellFormed (wellFormed_stepPath _ _)).run focus).trans heval, rfl,
    ?_⟩
  rw [← not_iff_not, ← chosen_attributes_eq_nil_iff]
  simp [Value.toBoolean]

theorem attrText_of_hasAttr (h : HasAttr d name value id) : attrText d name id = value := by
  obtain ⟨attr, hfind, rfl⟩ := h
  rw [attrText, plainAttr?, hfind]
  rfl

/-- The path to the attributes of a name without prefix gives the text of the first of them. -/
theorem toString_chosen_attributes (hd : d.WellBuilt) :
    (Value.nodes (chosen d.view options .attributes (.name name) [] id)).toString d.view =
      attrText d name id := by
  rw [chosen_attributes hd, attrText, plainAttr?, ← List.head?_filter]
  cases (d.attributes id).filter fun attr =>
    (d.view.pfx? attr).isNone && d.view.localName? attr == some name <;> rfl

/-- A comparison of an attribute without prefix says how its text lies to the operand. -/
theorem says_comparison (hd : d.WellBuilt) (op : AttrOp)
    (hlength : op = .endsWith → (attrText d name focus.node).length ≤ Nat.pow 2 51) :
    Says d.view options focus (AttrSelector.condition ⟨none, name, some (op, operand)⟩)
      (op.Fits (attrText d name focus.node) operand) :=
  op.says_condition (eval_stepPath .attributes (.name name) focus) (toString_chosen_attributes hd)
    hlength

end

/-! ## Comparisons and attributes that are not there -/

/-- A comparison with an operand that is not empty holds only where there is an attribute of the
name. With the empty operand it holds wherever there is none, whatever the operator. -/
theorem AttrSelector.eval_comparison (events : List Event) (options : QueryOptions) (focus : Focus)
    (pfx : Option NamePart) (name : String) (op : AttrOp) (operand : String) :
    let d := Document.ofEvents events
    let named := HasNamed d options pfx name focus.node
    let comparison := AttrSelector.condition ⟨pfx, name, some (op, operand)⟩
    Decides d.view options focus (AttrSelector.condition ⟨pfx, name, none⟩) named ∧
      ∃ truth, comparison.eval d.view options focus = .ok (.boolean truth) ∧
        comparison.compile.run d.view options focus = .ok (.boolean truth) ∧
        (operand ≠ "" → truth = true → named) ∧ (operand = "" → ¬ named → truth = true) := by
  intro d named comparison
  have hboolean : comparison.Steady d.view options (fun value => value.isBoolean = true) :=
    op.steady_condition operand (steady_stepPath _ _).any
  obtain ⟨value, hvalue⟩ := hboolean
  obtain ⟨heval, hkind⟩ := hvalue focus
  obtain ⟨truth, htruth⟩ : ∃ truth, value focus.node = .boolean truth := by
    cases hnode : value focus.node <;> simp_all [Value.isBoolean]
  rw [htruth] at heval
  have hwellFormed : comparison.WellFormed := AttrSelector.wellFormed_condition _
  have hmissing : ¬ named → (truth = true ↔ operand = "") := fun hnone => by
    have hempty := @eval_stepPath d options .attributes (NamePart.test pfx (.name name)) focus
    rw [chosen_attributes_eq_nil_iff.mpr hnone] at hempty
    have hsays : Says d.view options focus comparison (op.Fits "" operand) :=
      op.says_condition hempty rfl (fun _ => Nat.zero_le _)
    obtain ⟨truth', heval', hfits⟩ := hsays
    obtain rfl : truth = truth' := by
      have hsame := heval.symm.trans heval'
      simpa using hsame
    exact hfits.trans op.fits_empty_iff
  refine ⟨decides_named d options focus pfx name, truth, heval,
    ((agrees_of_wellFormed hwellFormed).run focus).trans heval, fun hne htrue => ?_,
    fun hempty hnone => (hmissing hnone).mpr hempty⟩
  exact Classical.byContradiction fun hnone => hne ((hmissing hnone).mp htrue)

theorem AttrSelector.eval_comparison_start :
    let events : List Event := [.empty "s:r" [("xmlns:s", "urn:s"), ("s:a", "xy")]]
    let d := Document.ofEvents events
    let options : QueryOptions := { aliases := [("n", "urn:s")] }
    let pfx := some (NamePart.name "n")
    let named := HasNamed d options pfx "a" 1
    let comparison := AttrSelector.condition ⟨pfx, "a", some (.startsWith, "x")⟩
    Decides d.view options { node := 1 } (AttrSelector.condition ⟨pfx, "a", none⟩) named ∧
      ∃ truth, comparison.eval d.view options { node := 1 } = .ok (.boolean truth) ∧
        comparison.compile.run d.view options { node := 1 } = .ok (.boolean truth) ∧
        ("x" ≠ "" → truth = true → named) ∧ ("x" = "" → ¬ named → truth = true) := by
  intro events d options pfx named comparison
  exact AttrSelector.eval_comparison events options { node := 1 } pfx "a" .startsWith "x"

/-- Without the condition on the operand, an element without attributes passes a comparison. -/
theorem AttrSelector.eval_comparison_fails :
    ¬ ∀ (events : List Event) (options : QueryOptions) (pfx : Option NamePart) (name : String)
      (op : AttrOp) (operand : String) (id : NodeId),
      let d := Document.ofEvents events
      d.kind id = .element →
        TrueAt d options (AttrSelector.condition ⟨pfx, name, some (op, operand)⟩) id →
          TrueAt d options (AttrSelector.condition ⟨pfx, name, none⟩) id := by
  intro h
  have hthere := h [.empty "r" []] {} none "a" .startsWith "" 1 (by decide)
    ⟨.boolean true, by rfl, rfl⟩
  obtain ⟨attr, hattr, _⟩ := (decides_named _ {} { node := 1 } none "a").trueAt_iff.mp hthere
  exact List.not_mem_nil hattr

/-! ## What comparisons say -/

/-- At any node and for any operand, the comparisons of an attribute without prefix say whether the
text of the first attribute of the name, empty if there is none, is the operand, is it or goes on
behind it with a hyphen, starts with it, holds it, and, if the text has at most 2⁵¹ characters, ends
with it. The place where the operand would start is rounded by way of its half, and a number beyond
2⁵² has no halves. -/
theorem AttrSelector.decides_comparison (events : List Event) (options : QueryOptions)
    (focus : Focus) (name operand : String) :
    let d := Document.ofEvents events
    let value := attrText d name focus.node
    let comparison := fun op => AttrSelector.condition ⟨none, name, some (op, operand)⟩
    Decides d.view options focus (comparison .equals) (value = operand) ∧
      Decides d.view options focus (comparison .dashMatch)
        (value = operand ∨ operand.toList ++ ['-'] <+: value.toList) ∧
      Decides d.view options focus (comparison .startsWith) (operand.toList <+: value.toList) ∧
      (value.length ≤ Nat.pow 2 51 →
        Decides d.view options focus (comparison .endsWith) (operand.toList <:+ value.toList)) ∧
      Decides d.view options focus (comparison .contains) (operand.toList <:+: value.toList) := by
  intro d value comparison
  have hd : d.WellBuilt := Document.wellBuilt_ofEvents events
  have hdecides (op : AttrOp) (hlength : op = .endsWith → value.length ≤ Nat.pow 2 51) :
      Decides d.view options focus (comparison op) (op.Fits value operand) :=
    (says_comparison hd op hlength).decides (AttrSelector.wellFormed_condition _)
  exact ⟨hdecides .equals nofun, hdecides .dashMatch nofun, hdecides .startsWith nofun,
    fun hlength => hdecides .endsWith fun _ => hlength, hdecides .contains nofun⟩

theorem AttrSelector.decides_comparison_of_tag :
    let events : List Event := [.empty "r" [("lang", "en-US")]]
    let d := Document.ofEvents events
    let value := attrText d "lang" 1
    let comparison := fun op => AttrSelector.condition ⟨none, "lang", some (op, "US")⟩
    value = "en-US" ∧
      Decides d.view {} { node := 1 } (comparison .endsWith) ("US".toList <:+ value.toList) := by
  intro events d value comparison
  have hvalue : value = "en-US" := by decide
  have hlength : value.length ≤ Nat.pow 2 51 := by rw [hvalue]; decide
  exact ⟨hvalue,
    (AttrSelector.decides_comparison events {} { node := 1 } "lang" "US").2.2.2.1 hlength⟩

/-- At an element whose first attribute of a name without prefix has a value, the comparison with a
word says whether the pieces of the operand between spaces stand side by side among those of the
value. Where spaces are the only blanks, that means that an operand with no space in it is one of
the words; and a word that it holds for is one of the words whatever the blanks. -/
theorem AttrSelector.eval_includes (events : List Event) (options : QueryOptions) (focus : Focus)
    {name value operand : String} (h : HasAttr (Document.ofEvents events) name value focus.node) :
    let d := Document.ofEvents events
    let comparison := AttrSelector.condition ⟨none, name, some (.includes, operand)⟩
    ∃ truth, comparison.eval d.view options focus = .ok (.boolean truth) ∧
      comparison.compile.run d.view options focus = .ok (.boolean truth) ∧
      (truth = true ↔ operand.toList.splitOn ' ' <:+: value.toList.splitOn ' ') ∧
      ((∀ c ∈ value.toList, isWordBlank c = true → c = ' ') → operand ≠ "" →
        ' ' ∉ operand.toList → (truth = true ↔ operand.toList ∈ words value.toList)) ∧
      (IsWord operand.toList → truth = true → operand.toList ∈ words value.toList) := by
  intro d comparison
  have hd : d.WellBuilt := Document.wellBuilt_ofEvents events
  have hsays : Says d.view options focus comparison
      (AttrOp.includes.Fits (attrText d name focus.node) operand) := says_comparison hd _ nofun
  rw [attrText_of_hasAttr h] at hsays
  obtain ⟨truth, heval, hfits⟩ := hsays
  have hwellFormed : comparison.WellFormed := AttrSelector.wellFormed_condition _
  refine ⟨truth, heval, ((agrees_of_wellFormed hwellFormed).run focus).trans heval, hfits,
    fun honly hne hspace => ?_, fun hword htrue => ?_⟩
  · have hne : operand.toList ≠ [] := mt String.toList_eq_nil_iff.mp hne
    rw [hfits, AttrOp.Fits, List.splitOn_eq_singleton hspace, List.singleton_infix_iff,
      Text.mem_words_iff_mem_splitOn rfl honly, and_iff_left hne]
  · have hblank : isWordBlank ' ' = true := rfl
    have hwords := Text.words_infix_of_padded hblank (Text.padded_infix_iff.mpr (hfits.mp htrue))
    rw [Text.words_of_isWord hword] at hwords
    exact (List.singleton_infix_iff _ _).mp hwords

theorem AttrSelector.eval_includes_second :
    let events : List Event := [.empty "r" [("rel", "nofollow external")]]
    let d := Document.ofEvents events
    let comparison := AttrSelector.condition ⟨none, "rel", some (.includes, "external")⟩
    HasAttr d "rel" "nofollow external" 1 ∧
      ∃ truth, comparison.eval d.view {} { node := 1 } = .ok (.boolean truth) ∧
        comparison.compile.run d.view {} { node := 1 } = .ok (.boolean truth) ∧
        (truth = true ↔
          "external".toList.splitOn ' ' <:+: "nofollow external".toList.splitOn ' ') ∧
        ((∀ c ∈ "nofollow external".toList, isWordBlank c = true → c = ' ') → "external" ≠ "" →
          ' ' ∉ "external".toList →
            (truth = true ↔ "external".toList ∈ words "nofollow external".toList)) ∧
        (IsWord "external".toList → truth = true →
          "external".toList ∈ words "nofollow external".toList) := by
  intro events d comparison
  have h : HasAttr d "rel" "nofollow external" 1 := ⟨2, by decide, by decide⟩
  exact ⟨h, AttrSelector.eval_includes events {} { node := 1 } h⟩

/-- A tab stands between two words as well, but the comparison does not see the words beside it. -/
theorem AttrSelector.eval_includes_fails :
    ¬ ∀ (events : List Event) (options : QueryOptions) (name value operand : String) (id : NodeId),
      let d := Document.ofEvents events
      HasAttr d name value id →
        (TrueAt d options (AttrSelector.condition ⟨none, name, some (.includes, operand)⟩) id ↔
          operand.toList ∈ words value.toList) := by
  intro h
  let events : List Event := [.empty "r" [("a", "x\ty")]]
  let d := Document.ofEvents events
  have hattr : HasAttr d "a" "x\ty" 1 := ⟨2, by decide, by decide⟩
  have hsays : Says d.view {} { node := 1 }
      (AttrSelector.condition ⟨none, "a", some (.includes, "x")⟩)
      (AttrOp.includes.Fits (attrText d "a" 1) "x") :=
    says_comparison (Document.wellBuilt_ofEvents events) .includes nofun
  rw [attrText_of_hasAttr hattr] at hsays
  have hdecides := hsays.decides (AttrSelector.wellFormed_condition _)
  have htrue := (h events {} "a" "x\ty" "x" 1 hattr).mpr (by decide)
  have hpieces : "x".toList.splitOn ' ' <:+: "x\ty".toList.splitOn ' ' :=
    hdecides.trueAt_iff.mp htrue
  exact absurd hpieces (by decide)

end TreeQuery.Selector
