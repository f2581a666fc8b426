import TreeQuery.Proofs.Tree.Nesting

/-!
The two prefixes that are declared from the start. Nobody else declares them, and they lie below
all other declarations at depth zero, so only leaving a scope at depth zero takes them off: from
then on nothing brings them back.
-/
namespace TreeQuery.Scope

/-- Some scope is left when the depth is zero. -/
def LeftAtZero (s : Scope) : List Action → Prop
  | [] => False
  | action :: actions => (action = .pop ∧ s.depth = 0) ∨ (s.after action).LeftAtZero actions

instance decidableLeftAtZero (s : Scope) : (actions : List Action) → Decidable (s.LeftAtZero actions)
  | [] => .isFalse id
  | action :: actions => @instDecidableOr _ _ _ (decidableLeftAtZero (s.after action) actions)

variable {s : Scope} {action : Action} {actions : List Action} {pfx uri : String}

/-- What one declaration adds is for a prefix that is not reserved. -/
theorem declarations_declare (s : Scope) (pfx uri : String) :
    ∃ added, (s.declare pfx uri).declarations = added ++ s.declarations ∧
      ∀ d ∈ added, isReserved d.pfx = false := by
  rw [declare]
  split
  · exact ⟨[], rfl, by simp⟩
  · exact ⟨[⟨pfx, uri, s.depth⟩], rfl, by simpa using ‹¬isReserved pfx = true›⟩

/-! ## While the first declarations are there -/

/-- The first declarations lie below others, which are for other prefixes. -/
def Rooted (s : Scope) : Prop :=
  ∃ others, s.declarations = others ++ initial.declarations ∧
    ∀ d ∈ others, isReserved d.pfx = false

theorem rooted_initial : initial.Rooted := ⟨[], rfl, by simp⟩

theorem Rooted.declare (h : s.Rooted) (pfx uri : String) : (s.declare pfx uri).Rooted := by
  obtain ⟨others, hothers, hfree⟩ := h
  obtain ⟨added, hadded, hadds⟩ := declarations_declare s pfx uri
  refine ⟨added ++ others, by rw [hadded, hothers, List.append_assoc], fun d hd => ?_⟩
  rcases List.mem_append.mp hd with hd | hd
  · exact hadds d hd
  · exact hfree d hd

/-- At a depth other than zero the first declarations are too far out to be taken off. -/
theorem Rooted.pop (h : s.Rooted) (hdepth : s.depth ≠ 0) : s.pop.Rooted := by
  obtain ⟨others, hothers, hfree⟩ := h
  have hkept : initial.declarations.dropWhile (s.depth ≤ ·.depth) = initial.declarations := by
    refine List.dropWhile_cons_of_neg ?_
    rwa [decide_eq_true_eq, UInt16.le_zero_iff]
  refine ⟨others.dropWhile (s.depth ≤ ·.depth), ?_, fun d hd => hfree d (List.dropWhile_subset _ hd)⟩
  rw [Scope.pop, hothers, List.dropWhile_append, hkept]
  split
  · rename_i hnone
    rw [List.isEmpty_iff.mp hnone, List.nil_append]
  · rfl

theorem Rooted.after (h : s.Rooted) (hdepth : ¬(action = .pop ∧ s.depth = 0)) :
    (s.after action).Rooted := by
  cases action with
  | push => exact h
  | declare pfx uri => exact h.declare pfx uri
  | declareDefault uri => exact h.declare "" uri
  | pop => exact h.pop fun hzero => hdepth ⟨rfl, hzero⟩

theorem Rooted.resolve? (h : s.Rooted) (hreserved : isReserved pfx = true) :
    s.resolve? pfx = initial.resolve? pfx := by
  obtain ⟨others, hothers, hfree⟩ := h
  have hnone : others.find? (·.pfx == pfx) = none := by
    refine List.find?_eq_none.mpr fun d hd heq => ?_
    rw [beq_iff_eq] at heq
    simpa [heq, hreserved] using hfree d hd
  rw [Scope.resolve?, hothers, List.find?_append, hnone, Option.none_or]
  rfl

/-! ## Once they are gone -/

/-- No declaration is for a reserved prefix. -/
def Uprooted (s : Scope) : Prop := ∀ d ∈ s.declarations, isReserved d.pfx = false

/-- At depth zero every declaration is deep enough to be taken off. -/
theorem uprooted_pop (h : s.depth = 0) : s.pop.Uprooted := by
  have hnone : s.pop.declarations = [] := by
    refine List.dropWhile_eq_nil_iff.mpr fun d _ => ?_
    rw [h, decide_eq_true_eq]
    exact UInt16.zero_le
  intro d hd
  rw [hnone] at hd
  cases hd

theorem Uprooted.declare (h : s.Uprooted) (pfx uri : String) : (s.declare pfx uri).Uprooted := by
  obtain ⟨added, hadded, hadds⟩ := declarations_declare s pfx uri
  intro d hd
  rw [hadded] at hd
  rcases List.mem_append.mp hd with hd | hd
  · exact hadds d hd
  · exact h d hd

theorem Uprooted.after (h : s.Uprooted) (action : Action) : (s.after action).Uprooted := by
  cases action with
  | push => exact h
  | declare pfx uri => exact h.declare pfx uri
  | declareDefault uri => exact h.declare "" uri
  | pop => exact fun d hd => h d (List.dropWhile_subset _ hd)

theorem Uprooted.afterAll (h : s.Uprooted) (actions : List Action) :
    (s.afterAll actions).Uprooted := by
  induction actions generalizing s with
  | nil => exact h
  | cons action actions ih => exact ih (h.after action)

theorem Uprooted.resolve? (h : s.Uprooted) (hreserved : isReserved pfx = true) :
    s.resolve? pfx = none := by
  have hnone : s.declarations.find? (·.pfx == pfx) = none := by
    refine List.find?_eq_none.mpr fun d hd heq => ?_
    rw [beq_iff_eq] at heq
    simpa [heq, hreserved] using h d hd
  rw [Scope.resolve?, hnone]
  rfl

/-! ## Runs -/

/-- After any actions a reserved prefix resolves as it did at the start, or to nothing if a scope
was left at depth zero. -/
theorem Rooted.resolve?_afterAll (h : s.Rooted) (hreserved : isReserved pfx = true)
    (actions : List Action) : (s.afterAll actions).resolve? pfx =
      if s.LeftAtZero actions then none else initial.resolve? pfx := by
  induction actions generalizing s with
  | nil =>
      rw [if_neg (id : ¬s.LeftAtZero [])]
      exact h.resolve? hreserved
  | cons action actions ih =>
      by_cases hzero : action = .pop ∧ s.depth = 0
      · rw [if_pos (.inl hzero)]
        obtain ⟨rfl, hdepth⟩ := hzero
        exact ((uprooted_pop hdepth).afterAll actions).resolve? hreserved
      · have hiff : s.LeftAtZero (action :: actions) ↔ (s.after action).LeftAtZero actions :=
          or_iff_right hzero
        rw [if_congr hiff rfl rfl]
        exact ih (h.after hzero)

/-- The depth counts the scopes that were entered and not left, while there is room for the count. -/
theorem toNat_depth_after (hroom : action = .push → s.depth < 65535)
    (hentered : [action].count .pop ≤ s.depth.toNat + [action].count .push) :
    (s.after action).depth.toNat + [action].count .pop =
      s.depth.toNat + [action].count .push := by
  cases action with
  | push => exact toNat_depth_push (hroom rfl)
  | declare pfx uri => exact congrArg UInt16.toNat (depth_declare s pfx uri)
  | declareDefault uri => exact congrArg UInt16.toNat (depth_declare s "" uri)
  | pop =>
      have hpop : s.pop.depth.toNat = s.depth.toNat - 1 := toNat_depth_pop s
      exact hpop ▸ Nat.sub_add_cancel hentered

/-- Where only scopes are left that were entered, none is left at depth zero. -/
theorem not_leftAtZero (hroom : s.NeverFull actions)
    (hentered : ∀ past, past <+: actions → past.count .pop ≤ s.depth.toNat + past.count .push) :
    ¬s.LeftAtZero actions := by
  induction actions generalizing s with
  | nil => exact id
  | cons action actions ih =>
      have hcons : ∀ a past, (action :: past).count a = [action].count a + past.count a := by
        intro a past
        rw [← List.singleton_append, List.count_append]
      have hfirst := hentered [action] (List.prefix_append [action] actions)
      have hdepth := toNat_depth_after hroom.1 hfirst
      rintro (⟨rfl, hzero⟩ | hlater)
      · rw [hzero] at hfirst
        exact absurd hfirst (by decide)
      · refine ih hroom.2 (fun past hpast => ?_) hlater
        have hcount := hentered _ (List.cons_prefix_cons.mpr ⟨rfl, hpast⟩)
        rw [hcons .pop past, hcons .push past] at hcount
        omega

/-- After any actions the prefixes `xml` and `xmlns` resolve to their own URIs, unless some scope was
left at depth zero: then they resolve to nothing. No scope is left at depth zero where at every
moment at most as many were left as entered, and none was entered at the largest depth. -/
theorem resolve?_reserved_afterAll (actions : List Action) :
    let s := initial.afterAll actions
    (s.resolve? "xml" = if initial.LeftAtZero actions then none else some Namespace.xml) ∧
    (s.resolve? "xmlns" = if initial.LeftAtZero actions then none else some Namespace.xmlns) ∧
    ((∀ past ∈ actions.inits, past.count .pop ≤ past.count .push) → initial.NeverFull actions →
      ¬initial.LeftAtZero actions) := by
  intro s
  refine ⟨rooted_initial.resolve?_afterAll rfl actions, rooted_initial.resolve?_afterAll rfl actions,
    fun hentered hroom => not_leftAtZero hroom fun past hpast => ?_⟩
  calc past.count .pop ≤ past.count .push := hentered past ((List.mem_inits _ _).mpr hpast)
    _ = initial.depth.toNat + past.count .push := (Nat.zero_add _).symm

/-- In a scope inside another one somebody tries to declare both prefixes; the inner scope is left. -/
theorem resolve?_reserved_afterAll_nested :
    let actions : List Action := [.push, .declare "x" "urn:a", .push, .declare "xml" "urn:b",
      .declare "xmlns" "", .declareDefault "urn:c", .pop]
    let s := initial.afterAll actions
    (∀ past ∈ actions.inits, past.count .pop ≤ past.count .push) ∧ initial.NeverFull actions ∧
      s.bindings = [("x", "urn:a")] ∧ s.resolve? "xml" = some Namespace.xml ∧
      s.resolve? "xmlns" = some Namespace.xmlns := by
  intro actions s
  have hentered : ∀ past ∈ actions.inits, past.count .pop ≤ past.count .push := by decide
  have hroom : initial.NeverFull actions := by decide
  obtain ⟨hxml, hxmlns, hnever⟩ := resolve?_reserved_afterAll actions
  have hzero := hnever hentered hroom
  rw [if_neg hzero] at hxml hxmlns
  exact ⟨hentered, hroom, by decide, hxml, hxmlns⟩

/-- Leaving a scope that was never entered takes both prefixes away. -/
theorem resolve?_reserved_afterAll_fails :
    ¬∀ actions : List Action,
      let s := initial.afterAll actions
      s.resolve? "xml" = some Namespace.xml ∧ s.resolve? "xmlns" = some Namespace.xmlns := by
  intro h
  have hxml : (initial.afterAll [.pop]).resolve? "xml" = none := by decide
  have hstill : (initial.afterAll [.pop]).resolve? "xml" = some Namespace.xml := (h [.pop]).1
  rw [hxml] at hstill
  cases hstill

end TreeQuery.Scope
