import TreeQuery.Proofs.Selector.Lexed

/-!
No class or identifier in a selector that is read from a text is empty: its name comes from a token
that holds one character at least.
-/
namespace TreeQuery.Selector

mutual

/-- No class or identifier is empty, at any depth. -/
def Filter.Named : Filter → Prop
  | .className text | .id text => text ≠ ""
  | .not _ filters => Filter.AllNamed filters
  | .attr _ | .structural _ => True

def Filter.AllNamed : List Filter → Prop
  | [] => True
  | f :: fs => f.Named ∧ Filter.AllNamed fs

end

abbrev Compound.Named (compound : Compound) : Prop := Filter.AllNamed compound.filters

def Complex.Named (selector : Complex) : Prop :=
  selector.head.Named ∧ ∀ next ∈ selector.tail, next.2.Named

mutual

theorem Filter.Lexed.named : (f : Filter) → f.Lexed → f.Named
  | .className text, h => by
      simp only [Filter.Lexed] at h
      simpa only [Filter.Named] using h.1
  | .id text, h => by
      simp only [Filter.Lexed] at h
      simpa only [Filter.Named] using h.1
  | .not _ filters, h => by
      simp only [Filter.Lexed] at h
      simpa only [Filter.Named] using Filter.AllLexed.named filters h
  | .attr _, _ | .structural _, _ => by simp only [Filter.Named]

theorem Filter.AllLexed.named : (fs : List Filter) → Filter.AllLexed fs → Filter.AllNamed fs
  | [], _ => by simp only [Filter.AllNamed]
  | f :: fs, h => by
      simp only [Filter.AllLexed] at h
      simp only [Filter.AllNamed]
      exact ⟨Filter.Lexed.named f h.1, Filter.AllLexed.named fs h.2⟩

end

/-- A text is read as at least one selector, and none of them has an empty class or identifier. -/
theorem named_of_parse {text : String} {selectors : SelectorList} (h : parse text = .ok selectors) :
    selectors ≠ [] ∧ ∀ selector ∈ selectors, selector.Named := by
  obtain ⟨hne, hlexed⟩ := lexed_of_parse h
  refine ⟨hne, fun selector hselector => ?_⟩
  obtain ⟨hhead, htail⟩ := hlexed selector hselector
  exact ⟨Filter.AllLexed.named _ hhead, fun next hnext =>
    Filter.AllLexed.named _ (htail next hnext)⟩

end TreeQuery.Selector
