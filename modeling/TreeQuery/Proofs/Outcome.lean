import TreeQuery.Error

/-!
Outcomes that follow one another: a failure stays, and a value goes on. What is found in a table
stands in it. `Concur` is for outcomes that need not fail by the same error.
-/
namespace TreeQuery

variable {α β : Type}

theorem mem_of_lookup [BEq α] [LawfulBEq α] {key : α} {value : β} {table : List (α × β)}
    (h : table.lookup key = some value) : (key, value) ∈ table := by
  obtain ⟨before, after, rfl, _⟩ := List.lookup_eq_some_iff.mp h
  simp

/-- To drop the entries of one key changes nothing for the others. -/
theorem lookup_filter_ne [BEq α] [LawfulBEq α] {key other : α} (table : List (α × β))
    (h : other ≠ key) : (table.filter (·.1 != key)).lookup other = table.lookup other := by
  induction table with
  | nil => rfl
  | cons entry table ih =>
      by_cases hkey : entry.1 = key
      · have hother : (other == entry.1) = false := by simpa [hkey] using h
        rw [List.filter_cons_of_neg (by simp [hkey]), ih, List.lookup_cons, hother]
      · rw [List.filter_cons_of_pos (by simp [hkey]), List.lookup_cons, List.lookup_cons, ih]

@[simp] theorem ok_bind (a : α) (f : α → Except QueryError β) : (Except.ok a >>= f) = f a := rfl

@[simp] theorem error_bind (err : QueryError) (f : α → Except QueryError β) :
    (Except.error err >>= f) = Except.error err := rfl

theorem bind_eq_ok_iff {x : Except QueryError α} {f : α → Except QueryError β} {b : β} :
    (x >>= f) = .ok b ↔ ∃ a, x = .ok a ∧ f a = .ok b := by
  cases x with
  | error err => simp
  | ok a => simp

/-! ## Properties of outcomes -/

section
variable {good : α → Prop} {good' : β → Prop} {bad bad' : QueryError → Prop}

/-- A value has one property, an error another one. -/
def Meets (good : α → Prop) (bad : QueryError → Prop) : Except QueryError α → Prop
  | .ok a => good a
  | .error err => bad err

/-- An error has a property. -/
abbrev FailsBy (bad : QueryError → Prop) : Except QueryError α → Prop := Meets (fun _ => True) bad

theorem Meets.bind {x : Except QueryError α} {f : α → Except QueryError β} (hx : Meets good bad x)
    (hf : ∀ a, good a → Meets good' bad (f a)) : Meets good' bad (x >>= f) := by
  cases x with
  | error err => exact hx
  | ok a => exact hf a hx

theorem Meets.mono {x : Except QueryError α} (hx : Meets good bad x)
    (hbad : ∀ err, bad err → bad' err) : Meets good bad' x := by
  cases x with
  | error err => exact hbad err hx
  | ok a => exact hx

theorem Meets.failsBy {x : Except QueryError α} (hx : Meets good bad x) : FailsBy bad x := by
  cases x with
  | error err => exact hx
  | ok a => trivial

end

/-! ## Outcomes that fail together -/

/-- Two outcomes are failures both, or the same value. -/
inductive Concur : Except QueryError α → Except QueryError α → Prop where
  | fail (err err' : QueryError) : Concur (.error err) (.error err')
  | give (a : α) : Concur (.ok a) (.ok a)

theorem concur_iff {x y : Except QueryError α} : Concur x y ↔ ∀ a, x = .ok a ↔ y = .ok a := by
  constructor
  · rintro (⟨err, err'⟩ | ⟨a⟩)
    · simp
    · exact fun b => Iff.rfl
  · intro h
    cases x with
    | ok a => rw [(h a).mp rfl]; exact .give a
    | error err =>
        cases y with
        | ok b => cases (h b).mpr rfl
        | error err' => exact .fail err err'

theorem Concur.refl (x : Except QueryError α) : Concur x x := concur_iff.mpr fun _ => Iff.rfl

theorem Concur.bind {x y : Except QueryError α} {f g : α → Except QueryError β}
    (hx : Concur x y) (hf : ∀ a, x = .ok a → Concur (f a) (g a)) :
    Concur (x >>= f) (y >>= g) := by
  cases hx with
  | fail err err' => exact .fail err err'
  | give a => exact hf a rfl

end TreeQuery
