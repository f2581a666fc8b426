import TreeQuery.Proofs.Cache.Moments
import TreeQuery.Proofs.Engine.Cached

/-!
How many entries an engine keeps. Whatever a request does to the caches of an engine is a sequence
of changes of each of them, so none outgrows its policy. The compiled queries of the two languages
stand in two caches, and each of these has room for as many as the policy says.
-/
namespace TreeQuery

/-! ## Changes one after the other -/

namespace Cache

variable {α : Type} {c c' : Cache α}

/-- A cache has become another one in the course of its uses. -/
def Evolves (c c' : Cache α) : Prop := Relation.ReflTransGen Change c c'

theorem Evolves.policy_eq (h : c.Evolves c') : c'.policy = c.policy := by
  induction h with
  | refl => rfl
  | tail _ hchange ih => exact hchange.policy_eq.trans ih

theorem Evolves.allows (h : c.Evolves c') (hc : c.policy.Allows c.size) :
    c'.policy.Allows c'.size := by
  induction h with
  | refl => exact hc
  | tail _ hchange ih => exact hchange.allows ih

end Cache

namespace Engine

/-! ## Caches by language -/

/-- The cache of what was read in a language. -/
def readSlot : Language → Cache.Slot Engine (Instance Expr)
  | .expression => expressionSlot
  | .selector => selectorSlot

/-- The cache of what was compiled from a language. -/
def compiledSlot : Language → Cache.Slot Engine (Instance CompiledQuery)
  | .expression => compiledExpressionSlot
  | .selector => compiledSelectorSlot

variable {e e' e'' : Engine} {language : Language} {text : String}

theorem parse_eq : parse language text =
    Cache.getOrBuild (readSlot language) text (number (language.read text)) := by
  cases language <;> rfl

theorem compile_eq : compile language text =
    Cache.getOrBuild (compiledSlot language) text (compileWith (parse language) text) := by
  cases language <;> rfl

theorem write_read_readSlot (language : Language) (e : Engine) :
    (readSlot language).write ((readSlot language).read e) e = e := by
  cases language <;> rfl

theorem write_read_compiledSlot (language : Language) (e : Engine) :
    (compiledSlot language).write ((compiledSlot language).read e) e = e := by
  cases language <;> rfl

/-! ## Changes of an engine -/

/-- Each cache of an engine has become the cache of another one in the course of its uses. -/
structure Evolves (e e' : Engine) : Prop where
  expressions : e.expressions.Evolves e'.expressions
  selectors : e.selectors.Evolves e'.selectors
  compiledExpressions : e.compiledExpressions.Evolves e'.compiledExpressions
  compiledSelectors : e.compiledSelectors.Evolves e'.compiledSelectors

theorem Evolves.refl (e : Engine) : Evolves e e := ⟨.refl, .refl, .refl, .refl⟩

theorem Evolves.trans (h : Evolves e e') (h' : Evolves e' e'') : Evolves e e'' :=
  ⟨h.1.trans h'.1, h.2.trans h'.2, h.3.trans h'.3, h.4.trans h'.4⟩

theorem evolves_write_readSlot {c : Cache (Instance Expr)}
    (h : Cache.Change ((readSlot language).read e) c) :
    Evolves e ((readSlot language).write c e) := by
  cases language with
  | expression => exact ⟨.single h, .refl, .refl, .refl⟩
  | selector => exact ⟨.refl, .single h, .refl, .refl⟩

theorem evolves_write_compiledSlot {c : Cache (Instance CompiledQuery)}
    (h : Cache.Change ((compiledSlot language).read e) c) :
    Evolves e ((compiledSlot language).write c e) := by
  cases language with
  | expression => exact ⟨.refl, .refl, .single h, .refl⟩
  | selector => exact ⟨.refl, .refl, .refl, .single h⟩

/-- A cache in front of a build: the build may change all caches, and then this one changes. -/
theorem evolves_getOrBuild {α : Type} {slot : Cache.Slot Engine (Instance α)}
    {build : Action (Instance α)} (hslot : ∀ e, slot.write (slot.read e) e = e)
    (hwrite : ∀ {e c}, Cache.Change (slot.read e) c → Evolves e (slot.write c e))
    (hbuild : ∀ e, Evolves e (build e).2) (e : Engine) :
    Evolves e (Cache.getOrBuild slot text build e).2 := by
  cases h : (slot.read e).lookup? text with
  | some value =>
      rw [Cache.getOrBuild_hit h]
      exact hwrite (.use _ text value h)
  | none =>
      rw [Cache.getOrBuild_miss hslot h]
      exact (hbuild e).trans (hwrite (Cache.change_settle _ text (build e).1))

theorem evolves_number {α : Type} (result : Except QueryError α) (e : Engine) :
    Evolves e (number result e).2 := by
  cases result with
  | error err => exact .refl e
  | ok value => exact ⟨.refl, .refl, .refl, .refl⟩

theorem evolves_parse (language : Language) (text : String) (e : Engine) :
    Evolves e (parse language text e).2 := by
  rw [parse_eq]
  exact evolves_getOrBuild (write_read_readSlot language) evolves_write_readSlot
    (evolves_number _) e

theorem evolves_compileWith (language : Language) (text : String) (e : Engine) :
    Evolves e (compileWith (parse language) text e).2 := by
  have hparse := evolves_parse language text e
  rw [compileWith]
  cases h : parse language text e with
  | mk outcome e' =>
      rw [h] at hparse
      cases outcome with
      | error err => exact hparse
      | ok expr => exact hparse.trans (evolves_number _ e')

theorem evolves_compile (language : Language) (text : String) (e : Engine) :
    Evolves e (compile language text e).2 := by
  rw [compile_eq]
  exact evolves_getOrBuild (write_read_compiledSlot language) evolves_write_compiledSlot
    (evolves_compileWith language text) e

/-- One request: each cache goes through changes. -/
theorem evolves_perform (request : Request) (e : Engine) : Evolves e (perform request e).2 := by
  cases request with
  | parse language text => exact evolves_parse language text e
  | compile language text => exact evolves_compile language text e
  | evaluate v options node text => exact evolves_parse .expression text e
  | select v options node text => exact evolves_parse .selector text e
  | clear =>
      exact ⟨.single (.clear _), .single (.clear _), .single (.clear _), .single (.clear _)⟩

/-- Requests one after the other. -/
theorem evolves_performAll (requests : List Request) (e : Engine) :
    Evolves e (performAll requests e).2 := by
  induction requests generalizing e with
  | nil => exact .refl e
  | cons request requests ih => exact (evolves_perform request e).trans (ih _)

/-! ## Room in the caches -/

theorem allows_of_evolves_empty {α : Type} {policy : CachePolicy} {c : Cache α}
    (h : (Cache.empty policy).Evolves c) : policy.Allows c.size := by
  have hempty : policy.Allows (Cache.empty policy : Cache α).size := by
    cases policy with
    | unbounded => trivial
    | bounded capacity positive => exact Nat.zero_le capacity
  have hpolicy : c.policy = policy := h.policy_eq
  have hallows := h.allows hempty
  rwa [hpolicy] at hallows

/-- After any requests to an engine with bounded caches there are no more expressions and no more
selectors than their policies say. Of compiled queries there are no more than the policy says in
each language, so there are up to twice as many together. -/
theorem sizes_le (expressions selectors compiled : Nat) (hexpressions : 0 < expressions)
    (hselectors : 0 < selectors) (hcompiled : 0 < compiled) (requests : List Request) :
    let e := (performAll requests (.new ⟨.bounded expressions hexpressions,
      .bounded selectors hselectors, .bounded compiled hcompiled⟩)).2
    e.sizes.1 ≤ expressions ∧ e.sizes.2.1 ≤ selectors ∧ e.sizes.2.2 ≤ 2 * compiled ∧
      e.compiledExpressions.size ≤ compiled ∧ e.compiledSelectors.size ≤ compiled := by
  intro e
  have hevolves := evolves_performAll requests (.new ⟨.bounded expressions hexpressions,
    .bounded selectors hselectors, .bounded compiled hcompiled⟩)
  have hcompiledExpressions : e.compiledExpressions.size ≤ compiled :=
    allows_of_evolves_empty hevolves.compiledExpressions
  have hcompiledSelectors : e.compiledSelectors.size ≤ compiled :=
    allows_of_evolves_empty hevolves.compiledSelectors
  refine ⟨allows_of_evolves_empty hevolves.expressions, allows_of_evolves_empty hevolves.selectors,
    ?_, hcompiledExpressions, hcompiledSelectors⟩
  calc e.compiledExpressions.size + e.compiledSelectors.size
      ≤ compiled + compiled := Nat.add_le_add hcompiledExpressions hcompiledSelectors
    _ = 2 * compiled := (Nat.two_mul compiled).symm

/-- Room for two expressions, one selector and one compiled query of each language: the cache of
expressions is full, and so are both caches of compiled queries. -/
theorem sizes_le_full :
    let requests : List Request := [.parse .expression "a", .parse .expression "b",
      .compile .expression "c", .parse .selector "a", .compile .selector "b"]
    let e := (performAll requests (.new ⟨.bounded 2 Nat.two_pos, .bounded 1 Nat.one_pos,
      .bounded 1 Nat.one_pos⟩)).2
    0 < 2 ∧ 0 < 1 ∧ e.sizes = (2, 1, 2) ∧
      e.sizes.1 ≤ 2 ∧ e.sizes.2.1 ≤ 1 ∧ e.sizes.2.2 ≤ 2 * 1 := by
  intro requests e
  obtain ⟨hexpressions, hselectors, hcompiled, -⟩ :=
    sizes_le 2 1 1 Nat.two_pos Nat.one_pos Nat.one_pos requests
  exact ⟨Nat.two_pos, Nat.one_pos, by decide +kernel +zetaReduce, hexpressions, hselectors,
    hcompiled⟩

/-- A text that is compiled as an expression and as a selector takes two places where the policy has
room for one. -/
theorem sizes_le_fails :
    ¬ ∀ (expressions selectors compiled : Nat) (hexpressions : 0 < expressions)
      (hselectors : 0 < selectors) (hcompiled : 0 < compiled) (requests : List Request),
      let e := (performAll requests (.new ⟨.bounded expressions hexpressions,
        .bounded selectors hselectors, .bounded compiled hcompiled⟩)).2
      e.sizes.1 ≤ expressions ∧ e.sizes.2.1 ≤ selectors ∧ e.sizes.2.2 ≤ compiled := by
  intro h
  let e := (performAll [.compile .expression "a", .compile .selector "a"]
    (.new (.uniform (.bounded 1 Nat.one_pos)))).2
  have hsizes : e.sizes = (1, 1, 2) := by decide +kernel +zetaReduce
  have hle : e.sizes.2.2 ≤ 1 := (h 1 1 1 Nat.one_pos Nat.one_pos Nat.one_pos
    [.compile .expression "a", .compile .selector "a"]).2.2
  rw [hsizes] at hle
  exact absurd hle (by decide)

end Engine

end TreeQuery
