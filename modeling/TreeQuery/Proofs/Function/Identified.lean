import TreeQuery.Proofs.Eval.Order
import TreeQuery.Proofs.Text.Pieces

/-!
Elements by their identifiers. The words of several texts are the words of all of them with blanks
between: none is lost and no two become one. So what is identified by the texts of some nodes is
identified by the text of one of them.
-/
namespace TreeQuery

open TreeQuery.Text (isWordBlank words)

theorem View.attribute?_eq_some_iff {v : View} {e : NodeId} {name text : String} :
    v.attribute? e name = some text ↔
      ∃ before attr after, v.attributes e = before ++ attr :: after ∧
        (∀ other ∈ before, v.name? other ≠ some name) ∧ v.name? attr = some name ∧
        v.value? attr = some text := by
  rw [attribute?, Option.bind_eq_some_iff]
  constructor
  · rintro ⟨attr, hattr, htext⟩
    obtain ⟨hname, before, after, heq, hbefore⟩ := List.find?_eq_some_iff_append.mp hattr
    exact ⟨before, attr, after, heq, by simpa using hbefore, beq_iff_eq.mp hname, htext⟩
  · rintro ⟨before, attr, after, heq, hbefore, hname, htext⟩
    refine ⟨attr, List.find?_eq_some_iff_append.mpr ⟨beq_iff_eq.mpr hname, before, after, heq, ?_⟩,
      htext⟩
    simpa using hbefore

namespace Function

variable {v : View} {d : Document} {value : Value} {e : NodeId} {ids : List NodeId}

/-! ## Words of values -/

theorem mem_words_joinedText {word : List Char} :
    word ∈ words (joinedText v (.nodes ids)).toList ↔
      ∃ id ∈ ids, word ∈ words (v.stringValue id).toList := by
  have hblank : isWordBlank ' ' = true := rfl
  rw [joinedText, String.toList_intercalate, show " ".toList = [' '] from rfl,
    Text.words_intercalate hblank, List.mem_flatMap]
  simp only [List.mem_map, exists_exists_and_eq_and]

theorem mem_elementsById :
    e ∈ elementsById v value ↔
      e ∈ v.descendants View.documentNode ∧ v.kind e = .element ∧
        ∃ text, v.attribute? e "id" = some text ∧
          text.toList ∈ words (joinedText v value).toList := by
  rw [elementsById]
  split
  · rename_i hnone
    rw [List.isEmpty_iff.mp hnone]
    simp
  · rw [List.mem_filter, Bool.and_eq_true, beq_iff_eq]
    refine and_congr_right fun _ => and_congr_right fun _ => ?_
    cases v.attribute? e "id" with
    | none => simp
    | some text => simp

/-! ## Documents -/

/-- In a document, the elements that the words of a value identify come in order, each once. -/
theorem lists_elementsById (hd : d.WellBuilt) (value : Value) :
    Lists (elementsById d.view value) fun e =>
      d.view.kind e = .element ∧ ∃ text, d.view.attribute? e "id" = some text ∧
        text.toList ∈ words (joinedText d.view value).toList := by
  refine ⟨(ordered_elementsById hd value).ascending, fun e => ?_⟩
  rw [mem_elementsById, and_iff_right_of_imp]
  rintro ⟨hkind, -⟩
  have htree := (hd.lists_all.mem_iff e).mpr (Document.inTree_of_element hkind)
  refine (List.mem_cons.mp htree).resolve_left fun heq => ?_
  have hdocument := Document.kind_of_content? hd.content?_documentNode
  rw [← heq, show d.kind e = .element from hkind] at hdocument
  cases hdocument

/-- What the texts of nodes identify is what the text of one of them identifies. -/
theorem elementsById_nodes (hd : d.WellBuilt) (ids : List NodeId) :
    elementsById d.view (.nodes ids) =
      documentOrder
        (ids.flatMap fun id => elementsById d.view (.string (d.view.stringValue id))) := by
  have hnodes := lists_elementsById hd (.nodes ids)
  have hunion := lists_documentOrder
    (ids.flatMap fun id => elementsById d.view (.string (d.view.stringValue id)))
  refine hnodes.ascending.ext hunion.ascending fun e => ?_
  simp only [hnodes.mem_iff, hunion.mem_iff, List.mem_flatMap, (lists_elementsById hd _).mem_iff,
    mem_words_joinedText]
  constructor
  · rintro ⟨hkind, text, htext, id, hid, hword⟩
    exact ⟨id, hid, hkind, text, htext, hword⟩
  · rintro ⟨id, hid, hkind, text, htext, hword⟩
    exact ⟨hkind, text, htext, id, hid, hword⟩

/-- For a node-set, in any order and with repetitions, the elements identified are those that the
texts of its nodes identify one by one, all together in document order. For a text, they are the
elements whose first attribute `id` has one of its words as value, in document order, each once;
its words are the pieces between blanks that are not empty. -/
theorem call_id_ofEvents (events : List Event) (focus : Focus) :
    let v := (Document.ofEvents events).view
    (∀ ids : List NodeId, ∃ each : NodeId → List NodeId,
      (∀ n ∈ ids, Function.id.call v focus [.string (v.stringValue n)] = .ok (.nodes (each n))) ∧
      Function.id.call v focus [.nodes ids] = .ok (.nodes (documentOrder (ids.flatMap each)))) ∧
    ∀ text : String, ∃ found, Function.id.call v focus [.string text] = .ok (.nodes found) ∧
      Lists found fun e => v.kind e = .element ∧ ∃ before attr after value,
        v.attributes e = before ++ attr :: after ∧
        (∀ other ∈ before, v.name? other ≠ some "id") ∧ v.name? attr = some "id" ∧
        v.value? attr = some value ∧ value ≠ "" ∧
        value.toList ∈ text.toList.splitOnP isWordBlank := by
  intro v
  have hd : (Document.ofEvents events).WellBuilt := Document.wellBuilt_ofEvents events
  refine ⟨fun ids => ⟨fun n => elementsById v (.string (v.stringValue n)), fun _ _ => rfl, ?_⟩,
    fun text => ⟨elementsById v (.string text), rfl, ?_⟩⟩
  · rw [← elementsById_nodes hd]
    rfl
  · refine (lists_elementsById hd (.string text)).congr fun e => and_congr_right fun _ => ?_
    simp only [View.attribute?_eq_some_iff, joinedText, Value.toString, Text.mem_words_iff]
    constructor
    · rintro ⟨value, ⟨before, attr, after, heq, hbefore, hname, hvalue⟩, hpiece, hne⟩
      exact ⟨before, attr, after, value, heq, hbefore, hname, hvalue,
        mt String.toList_eq_nil_iff.mpr hne, hpiece⟩
    · rintro ⟨before, attr, after, value, heq, hbefore, hname, hvalue, hne, hpiece⟩
      exact ⟨value, ⟨before, attr, after, heq, hbefore, hname, hvalue⟩, hpiece,
        mt String.toList_eq_nil_iff.mp hne⟩

end Function

end TreeQuery
