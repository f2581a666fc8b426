import TreeQuery.Error

/-!
Runs on a budget. A run counts its steps and the tokens it leaves behind, and if it ends, then with
a value or an error, and in a state. What calls itself or goes round in a loop has a budget that is
smaller each time. No outcome means that the budget is used up, or that a run does what cannot be
done.
-/
namespace TreeQuery

/-- A state, with the steps and the tokens that are behind it. -/
structure Metered (σ : Type) where
  state : σ
  steps : Nat := 0
  passed : Nat := 0

abbrev Run (σ α : Type) := ExceptT QueryError (StateT (Metered σ) Option) α

variable {σ τ α β ρ ρ' : Type}

namespace Run

def outcome (m : Run σ α) (s : Metered σ) : Option (Except QueryError α × Metered σ) := m.run.run s

/-- Counts a call or a round of a loop. -/
def tick : Run σ Unit := modify fun s => { s with steps := s.steps + 1 }

/-- Counts a token that is left behind. -/
def pass : Run σ Unit := modify fun s => { s with passed := s.passed + 1 }

def state : Run σ σ := return (← get).state

def setState (state : σ) : Run σ Unit := modify fun s => { s with state }

/-- Has no budget left, or does what cannot be done. -/
def stuck : Run σ α := ExceptT.mk fun _ => none

theorem outcome_bind_ok {m : Run σ α} {f : α → Run σ β} {s s' : Metered σ} {a : α}
    (h : m.outcome s = some (.ok a, s')) : (m >>= f).outcome s = (f a).outcome s' := by
  rw [outcome] at h
  rw [outcome, ExceptT.run_bind, StateT.run_bind, h]
  rfl

theorem outcome_bind_error {m : Run σ α} {f : α → Run σ β} {s s' : Metered σ} {err : QueryError}
    (h : m.outcome s = some (.error err, s')) :
    (m >>= f).outcome s = some (.error err, s') := by
  rw [outcome] at h
  rw [outcome, ExceptT.run_bind, StateT.run_bind, h]
  rfl

section
variable {s : Metered σ}

theorem outcome_throw (err : QueryError) : (throw err : Run σ α).outcome s = some (.error err, s) :=
  rfl

theorem outcome_tick (f : Unit → Run σ α) :
    (tick >>= f).outcome s = (f ()).outcome { s with steps := s.steps + 1 } := rfl

theorem outcome_get (f : Metered σ → Run σ α) : (get >>= f).outcome s = (f s).outcome s := rfl

theorem outcome_state (f : σ → Run σ α) : (state >>= f).outcome s = (f s.state).outcome s := rfl

theorem outcome_setState (state : σ) (f : Unit → Run σ α) :
    (setState state >>= f).outcome s = (f ()).outcome { s with state } := rfl

end

end Run

/-- A run ends as another reading does: with a value that goes with the other one, or with the same
error. -/
inductive Halts (good : α → Metered σ → ρ → Prop) (bad : Metered σ → Prop) :
    Option (Except QueryError α × Metered σ) → Except QueryError ρ → Prop where
  | ok {a : α} {s : Metered σ} {r : ρ} (h : good a s r) : Halts good bad (some (.ok a, s)) (.ok r)
  | error {err : QueryError} {s : Metered σ} (h : bad s) :
      Halts good bad (some (.error err, s)) (.error err)

section
variable {good good₁ : α → Metered σ → ρ → Prop} {good' : β → Metered σ → ρ' → Prop}
  {bad : Metered σ → Prop}

theorem Halts.bind {m : Run σ α} {f : α → Run σ β} {s : Metered σ} {x : Except QueryError ρ}
    {g : ρ → Except QueryError ρ'} (hm : Halts good bad (m.outcome s) x)
    (hf : ∀ a s r, good a s r → Halts good' bad ((f a).outcome s) (g r)) :
    Halts good' bad ((m >>= f).outcome s) (x >>= g) := by
  generalize hrun : m.outcome s = run at hm
  cases hm with
  | ok h =>
      rw [Run.outcome_bind_ok hrun]
      exact hf _ _ _ h
  | error h =>
      rw [Run.outcome_bind_error hrun]
      exact .error h

theorem Halts.mono {run : Option (Except QueryError α × Metered σ)} {x : Except QueryError ρ}
    (h : Halts good bad run x) (hgood : ∀ a s r, good a s r → good₁ a s r) :
    Halts good₁ bad run x := by
  cases h with
  | ok h => exact .ok (hgood _ _ _ h)
  | error h => exact .error h

end

theorem Halts.exists_outcome {P : Metered σ → Prop}
    {run : Option (Except QueryError α × Metered σ)} {x : Except QueryError α}
    (h : Halts (fun a s a' => a' = a ∧ P s) P run x) : ∃ s, run = some (x, s) ∧ P s := by
  cases h with
  | ok h => exact ⟨_, by rw [h.1], h.2⟩
  | error h => exact ⟨_, rfl, h⟩

/-! ## Steps and the tokens that pay for them -/

/-- Each token that is behind pays for so many steps, and some are not paid. With the budget that is
left, there are as many steps as all tokens pay, and one more. -/
structure Paid (rate limit budget credit steps passed : Nat) : Prop where
  enough : rate * (limit + 1) ≤ budget + steps
  steps : steps ≤ rate * passed + credit
  within : passed ≤ limit

section
variable {rate limit budget budget' credit credit' steps passed : Nat}

theorem Paid.mono (h : Paid rate limit budget credit steps passed) (hcredit : credit ≤ credit') :
    Paid rate limit budget credit' steps passed :=
  { h with steps := Nat.le_trans h.steps (Nat.add_le_add_left hcredit _) }

theorem Paid.widen (h : Paid rate limit budget credit steps passed) (hbudget : budget ≤ budget') :
    Paid rate limit budget' credit steps passed :=
  { h with enough := Nat.le_trans h.enough (Nat.add_le_add_right hbudget _) }

theorem Paid.spend (h : Paid rate limit (budget + 1) credit steps passed) :
    Paid rate limit budget (credit + 1) (steps + 1) passed where
  enough := Nat.le_trans h.enough (Nat.le_of_eq (Nat.succ_add_eq_add_succ _ _))
  steps := Nat.succ_le_succ h.steps
  within := h.within

theorem Paid.tick (h : Paid rate limit budget credit steps passed) :
    Paid rate limit budget (credit + 1) (steps + 1) passed :=
  (h.widen (Nat.le_succ budget)).spend

/-- The token that is left behind pays for all steps. -/
theorem Paid.pass (h : Paid rate limit budget credit steps passed) (hcredit : credit ≤ rate)
    (hwithin : passed < limit) : Paid rate limit budget 0 steps (passed + 1) where
  enough := h.enough
  steps := (h.mono hcredit).steps
  within := hwithin

/-- Where less is not paid than a token pays, there is a budget left. -/
theorem Paid.budget_pos (h : Paid rate limit budget credit steps passed) (hcredit : credit < rate) :
    0 < budget := by
  have henough := h.enough
  have hsteps := h.steps
  have hpassed : rate * passed ≤ rate * limit := Nat.mul_le_mul_left _ h.within
  rw [Nat.mul_add, Nat.mul_one] at henough
  omega

end

/-! ## Runs and parsers side by side -/

/-- How a state goes with what is left to read, with a budget, steps that are not paid, and a number
of tokens that are ahead at most. -/
class Account (follows : Nat → Nat → Nat → Metered σ → τ → Prop) (size : outParam (τ → Nat))
    (rate : outParam Nat) : Prop where
  mono {budget credit credit' n n' : Nat} {s : Metered σ} {t : τ} (h : follows budget credit n s t)
    (hcredit : credit ≤ credit') (hn : n ≤ n') : follows budget credit' n' s t
  widen {budget budget' credit n : Nat} {s : Metered σ} {t : τ} (h : follows budget credit n s t)
    (hbudget : budget ≤ budget') : follows budget' credit n s t
  short {budget credit n : Nat} {s : Metered σ} {t : τ} (h : follows budget credit n s t) :
    size t ≤ n
  tight {budget credit n : Nat} {s : Metered σ} {t : τ} (h : follows budget credit n s t) :
    follows budget credit (size t) s t
  tick {budget credit n : Nat} {s : Metered σ} {t : τ} (h : follows (budget + 1) credit n s t) :
    follows budget (credit + 1) n { s with steps := s.steps + 1 } t
  pos {budget credit n : Nat} {s : Metered σ} {t : τ} (h : follows budget credit n s t)
    (hcredit : credit < rate) : 0 < budget

/-- The same is read, with all steps paid but so many. -/
def ReadsWith (follows : Nat → Nat → Metered σ → τ → Prop) (credit n : Nat) (a : α) (s : Metered σ)
    (read : α × τ) : Prop :=
  read.1 = a ∧ follows credit n s read.2

/-- Where some steps are not paid yet, a run reads what a parser reads, and then so many are not
paid. -/
def Tracks (follows : Nat → Nat → Nat → Metered σ → τ → Prop) (failed : Metered σ → Prop)
    (budget before after n : Nat) (m : Run σ α) (parser : τ → Except QueryError (α × τ)) : Prop :=
  ∀ b ≤ budget, ∀ s t, follows b before n s t →
    Halts (ReadsWith (follows b) after n) failed (m.outcome s) (parser t)

section
variable {follows : Nat → Nat → Nat → Metered σ → τ → Prop} {size : τ → Nat} {rate : Nat}
  {failed : Metered σ → Prop} {b budget before before' after after' k n : Nat} {m : Run σ α}
  {parser : τ → Except QueryError (α × τ)} {s : Metered σ} {t : τ}

theorem Tracks.of_le {budget' : Nat} (h : Tracks follows failed budget before after n m parser)
    (hbudget : budget' ≤ budget) : Tracks follows failed budget' before after n m parser :=
  fun b hb => h b (Nat.le_trans hb hbudget)

theorem Tracks.bind [Account follows size rate]
    (h : Tracks follows failed budget before after k m parser) (hs : follows b before' k s t)
    (hb : b ≤ budget) (hbefore : before' ≤ before) {good : β → Metered σ → ρ → Prop}
    {f : α → Run σ β} {g : α × τ → Except QueryError ρ}
    (hf : ∀ a s t, follows b after k s t → Halts good failed ((f a).outcome s) (g (a, t))) :
    Halts good failed ((m >>= f).outcome s) (parser t >>= g) := by
  refine (h b hb s t (Account.mono hs hbefore (Nat.le_refl _))).bind
    fun a s read hread => ?_
  obtain ⟨_, t⟩ := read
  obtain ⟨rfl, hs⟩ := hread
  exact hf _ s t hs

theorem Tracks.halts [Account follows size rate]
    (h : Tracks follows failed budget before after k m parser) (hs : follows b before' k s t)
    (hb : b ≤ budget) (hbefore : before' ≤ before) (hafter : after ≤ after') (hn : k ≤ n) :
    Halts (ReadsWith (follows b) after' n) failed (m.outcome s) (parser t) :=
  (h b hb s t (Account.mono hs hbefore (Nat.le_refl _))).mono fun _ _ _ hread =>
    ⟨hread.1, Account.mono hread.2 hafter hn⟩

/-- A call takes a step, and one from the budget. -/
theorem Tracks.call [Account follows size rate] (m : Nat → Run σ α) {body : Nat → Run σ α}
    (hm : ∀ budget, m (budget + 1) = Run.tick >>= fun _ => body budget) (hbefore : before < rate)
    (h : ∀ budget' < budget,
      Tracks follows failed budget' (before + 1) after n (body budget') parser) :
    Tracks follows failed budget before after n (m budget) parser := by
  intro b hb s t hs
  have hpos := Account.pos hs hbefore
  obtain ⟨b, rfl⟩ := Nat.exists_eq_add_one_of_ne_zero (Nat.ne_of_gt hpos)
  obtain ⟨budget, rfl⟩ :=
    Nat.exists_eq_add_one_of_ne_zero (Nat.ne_of_gt (Nat.lt_of_lt_of_le hpos hb))
  rw [hm, Run.outcome_tick]
  have hrun := h budget (Nat.lt_succ_self _) b (Nat.le_of_succ_le_succ hb) _ t (Account.tick hs)
  exact hrun.mono fun _ _ _ hread => ⟨hread.1, Account.widen hread.2 (Nat.le_succ _)⟩

/-- As many rounds as there are tokens are enough. -/
theorem tracks_rounds [Account follows size rate] (parser : Nat → τ → Except QueryError (α × τ))
    (h : ∀ k ≤ n, Tracks follows failed budget before after k m (parser k)) :
    Tracks follows failed budget before after n m fun t => parser (size t) t := fun _ hb _ t hs =>
  (h (size t) (Account.short hs)).halts (Account.tight hs) hb (Nat.le_refl _) (Nat.le_refl _)
    (Account.short hs)

end

end TreeQuery
