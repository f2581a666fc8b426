import TreeQuery.Proofs.Cache.Recency
import TreeQuery.Proofs.Engine.Capacity

/-!
What an engine holds for its requests when it forgets nothing. To read or to compile a text that can
be read leaves its instance in the cache for it: the one that stood there, or a new one with the
next number. So each number stands for one text, read or compiled in one language.
-/
namespace TreeQuery

/-! ## What is given out -/

/-- What an engine gives out and keeps: an expression that was read, or a compiled query. -/
inductive Handout where
  | expr (given : Instance Expr)
  | query (given : Instance CompiledQuery)

/-- The number under which it was built. -/
def Handout.serial : Handout → Nat
  | expr i => i.serial
  | query i => i.serial

namespace Engine

/-- What stands in the caches for a request that asks for an expression or a compiled query. -/
def held? (e : Engine) : Request → Option Handout
  | .parse language text => (((readSlot language).read e).lookup? text).map .expr
  | .compile language text => (((compiledSlot language).read e).lookup? text).map .query
  | _ => none

variable {e e' e'' : Engine} {request : Request} {handout : Handout}

/-! ## Putting one instance in -/

/-- The engine has the handout for the request afterwards, and for all others what it had before.
It had the handout already, or it had none and the handout has the next number. -/
structure Records (request : Request) (handout : Handout) (e e' : Engine) : Prop where
  same : e'.held? request = some handout
  others : ∀ r, r ≠ request → e'.held? r = e.held? r
  number : e.held? request = some handout ∧ e'.built = e.built ∨
    e.held? request = none ∧ handout.serial = e.built ∧ e'.built = e.built + 1

/-- The numbers of what is held are used up, and each belongs to one request. -/
structure Numbered (e : Engine) : Prop where
  below : ∀ r h, e.held? r = some h → h.serial < e.built
  distinct : ∀ r r' h h', e.held? r = some h → e.held? r' = some h' → h.serial = h'.serial → r = r'

theorem Records.keeps (hrecords : Records request handout e e') {r : Request} {h : Handout}
    (hheld : e.held? r = some h) : e'.held? r = some h := by
  by_cases hr : r = request
  · subst hr
    rcases hrecords.number with ⟨hsame, -⟩ | ⟨hnone, -⟩
    · rw [hrecords.same, ← hsame, hheld]
    · rw [hnone] at hheld
      cases hheld
  · rw [hrecords.others r hr, hheld]

theorem Records.isSome_iff (hrecords : Records request handout e e') (r : Request) :
    (e'.held? r).isSome ↔ (e.held? r).isSome ∨ r = request := by
  by_cases hr : r = request
  · subst hr
    simp [hrecords.same]
  · rw [hrecords.others r hr, or_iff_left hr]

theorem Records.numbered (hrecords : Records request handout e e') (he : e.Numbered) :
    e'.Numbered := by
  -- What is new has a number that nothing held before has.
  have hcases : ∀ r h, e'.held? r = some h → e.held? r = some h ∨
      r = request ∧ h.serial = e.built ∧ e.built < e'.built := by
    intro r h hheld
    by_cases hr : r = request
    · subst hr
      obtain rfl : handout = h := Option.some.inj (hrecords.same.symm.trans hheld)
      exact hrecords.number.imp And.left fun ⟨_, hserial, hbuilt⟩ => ⟨rfl, hserial, by omega⟩
    · exact .inl (hrecords.others r hr ▸ hheld)
  have hbuilt : e.built ≤ e'.built := by
    rcases hrecords.number with ⟨-, h⟩ | ⟨-, -, h⟩ <;> omega
  constructor
  · intro r h hheld
    rcases hcases r h hheld with hold | ⟨-, hserial, hlt⟩
    · exact Nat.lt_of_lt_of_le (he.below r h hold) hbuilt
    · rwa [hserial]
  · intro r r' h h' hheld hheld' hserial
    rcases hcases r h hheld with hold | ⟨rfl, hnew, -⟩ <;>
      rcases hcases r' h' hheld' with hold' | ⟨rfl, hnew', -⟩
    · exact he.distinct r r' h h' hold hold' hserial
    · have hlt := he.below r h hold
      omega
    · have hlt := he.below r' h' hold'
      omega
    · rfl

/-! ## Shelves -/

/-- A cache that holds the instances for one family of requests, a request for each text. -/
structure Shelf {α : Type} (slot : Cache.Slot Engine (Instance α)) (ask : String → Request)
    (give : Instance α → Handout) : Prop where
  write_read : ∀ e, slot.write (slot.read e) e = e
  read_built : ∀ e n, slot.read { e with built := n } = slot.read e
  built_write : ∀ c e, (slot.write c e).built = e.built
  held_ask : ∀ e text, e.held? (ask text) = ((slot.read e).lookup? text).map give
  held_write : ∀ c e text, (slot.write c e).held? (ask text) = (c.lookup? text).map give
  held_others : ∀ c e r, (∀ text, r ≠ ask text) → (slot.write c e).held? r = e.held? r
  serial_give : ∀ i, (give i).serial = i.serial

theorem shelf_read (language : Language) : Shelf (readSlot language) (.parse language) .expr where
  write_read := write_read_readSlot language
  read_built _ _ := by cases language <;> rfl
  built_write _ _ := by cases language <;> rfl
  held_ask _ _ := rfl
  held_write _ _ _ := by cases language <;> rfl
  held_others c e r hr := by
    match r, language with
    | .parse .expression _, .selector | .parse .selector _, .expression => rfl
    | .parse .expression text, .expression | .parse .selector text, .selector =>
        exact absurd rfl (hr text)
    | .compile .expression _, .expression | .compile .expression _, .selector => rfl
    | .compile .selector _, .expression | .compile .selector _, .selector => rfl
    | .evaluate .., _ | .select .., _ | .clear, _ => rfl
  serial_give _ := rfl

theorem shelf_compiled (language : Language) :
    Shelf (compiledSlot language) (.compile language) .query where
  write_read := write_read_compiledSlot language
  read_built _ _ := by cases language <;> rfl
  built_write _ _ := by cases language <;> rfl
  held_ask _ _ := rfl
  held_write _ _ _ := by cases language <;> rfl
  held_others c e r hr := by
    match r, language with
    | .compile .expression _, .selector | .compile .selector _, .expression => rfl
    | .compile .expression text, .expression | .compile .selector text, .selector =>
        exact absurd rfl (hr text)
    | .parse .expression _, .expression | .parse .expression _, .selector => rfl
    | .parse .selector _, .expression | .parse .selector _, .selector => rfl
    | .evaluate .., _ | .select .., _ | .clear, _ => rfl
  serial_give _ := rfl

theorem held?_built (e : Engine) (n : Nat) (r : Request) :
    ({ e with built := n } : Engine).held? r = e.held? r := by
  match r with
  | .parse .expression _ | .parse .selector _ => rfl
  | .compile .expression _ | .compile .selector _ => rfl
  | .evaluate .. | .select .. | .clear => rfl

section
variable {α : Type} {slot : Cache.Slot Engine (Instance α)} {ask : String → Request}
  {give : Instance α → Handout} {text : String}

theorem Shelf.held_touch (h : Shelf slot ask give) (e : Engine) (i : Instance α) :
    (slot.write ((slot.read e).touch text i) e).held? (ask text) = some (give i) := by
  rw [h.held_write, Cache.lookup?_touch, if_pos rfl, Option.map_some]

theorem Shelf.held_touch_others (h : Shelf slot ask give) (e : Engine) (i : Instance α)
    {r : Request} (hr : r ≠ ask text) :
    (slot.write ((slot.read e).touch text i) e).held? r = e.held? r := by
  by_cases hasked : ∃ other, r = ask other
  · obtain ⟨other, rfl⟩ := hasked
    have hne : other ≠ text := fun heq => hr (congrArg ask heq)
    rw [h.held_write, Cache.lookup?_touch, if_neg hne, h.held_ask]
  · exact h.held_others _ e r fun other heq => hasked ⟨other, heq⟩

/-- A text that is found: its instance is given and used. -/
theorem Shelf.records_hit (h : Shelf slot ask give) {i : Instance α} (build : Action (Instance α))
    (hfound : (slot.read e).lookup? text = some i) :
    (Cache.getOrBuild slot text build e).1 = .ok i ∧
      Records (ask text) (give i) e (Cache.getOrBuild slot text build e).2 := by
  rw [Cache.getOrBuild_hit hfound]
  refine ⟨rfl, h.held_touch e i, fun _ => h.held_touch_others e i, .inl ⟨?_, h.built_write _ e⟩⟩
  rw [h.held_ask, hfound, Option.map_some]

/-- What is built for a missing text is put into a cache that forgets nothing. The build may have
led to an engine `e'`, where the text is still missing. -/
theorem Shelf.records_miss (h : Shelf slot ask give) {build : Action (Instance α)} {value : α}
    (hlookup : (slot.read e).lookup? text = none) (hbuild : build e = number (.ok value) e')
    (hpolicy : (slot.read e').policy = .unbounded) (hmiss : (slot.read e').lookup? text = none) :
    (Cache.getOrBuild slot text build e).1 = .ok ⟨e'.built, value⟩ ∧
      Records (ask text) (give ⟨e'.built, value⟩) e' (Cache.getOrBuild slot text build e).2 := by
  have hread := h.read_built e' (e'.built + 1)
  have hroom : (slot.read { e' with built := e'.built + 1 }).insert text ⟨e'.built, value⟩ =
      (slot.read { e' with built := e'.built + 1 }).touch text ⟨e'.built, value⟩ := by
    rw [hread, Cache.insert_of_unbounded hpolicy]
  rw [Cache.getOrBuild_miss h.write_read hlookup, hbuild, number,
    Cache.settle_missed (by rw [hread, hmiss]), hroom]
  refine ⟨rfl, h.held_touch _ _, fun r hr => ?_, .inr ⟨?_, h.serial_give _, h.built_write _ _⟩⟩
  · rw [h.held_touch_others _ _ hr, held?_built]
  · rw [h.held_ask, hmiss, Option.map_none]

end

/-! ## Reading and compiling -/

/-- No cache forgets anything. -/
structure Unbounded (e : Engine) : Prop where
  read : ∀ language, ((readSlot language).read e).policy = .unbounded
  compiled : ∀ language, ((compiledSlot language).read e).policy = .unbounded

theorem Evolves.unbounded (h : Evolves e e') (he : e.Unbounded) : e'.Unbounded where
  read
    | .expression => h.expressions.policy_eq.trans (he.read .expression)
    | .selector => h.selectors.policy_eq.trans (he.read .selector)
  compiled
    | .expression => h.compiledExpressions.policy_eq.trans (he.compiled .expression)
    | .selector => h.compiledSelectors.policy_eq.trans (he.compiled .selector)

theorem unbounded_new : (Engine.new {}).Unbounded where
  read language := by cases language <;> rfl
  compiled language := by cases language <;> rfl

variable {language : Language} {text : String} {expr : Expr}

theorem records_parse (he : e.Unbounded) (hread : language.read text = .ok expr) :
    ∃ i, (parse language text e).1 = .ok i ∧
      Records (.parse language text) (.expr i) e (parse language text e).2 := by
  rw [parse_eq, hread]
  cases hlookup : ((readSlot language).read e).lookup? text with
  | some i => exact ⟨i, (shelf_read language).records_hit _ hlookup⟩
  | none => exact ⟨_, (shelf_read language).records_miss hlookup rfl (he.read language) hlookup⟩

/-- To compile a text that was not compiled reads it first. -/
theorem records_compile (he : e.Unbounded) (hread : language.read text = .ok expr) :
    ∃ i, (compile language text e).1 = .ok i ∧
      ((e.held? (.compile language text)).isSome ∧
          Records (.compile language text) (.query i) e (compile language text e).2 ∨
        Records (.compile language text) (.query i) (parse language text e).2
          (compile language text e).2) := by
  rw [compile_eq]
  cases hlookup : ((compiledSlot language).read e).lookup? text with
  | some i =>
      obtain ⟨hi, hrecords⟩ := (shelf_compiled language).records_hit
        (compileWith (parse language) text) hlookup
      refine ⟨i, hi, .inl ⟨?_, hrecords⟩⟩
      rw [held?, hlookup]
      rfl
  | none =>
      obtain ⟨i, hi, hparse⟩ := records_parse he hread
      have hunbounded := (evolves_parse language text e).unbounded he
      have hbuild : compileWith (parse language) text e =
          number (.ok (CompiledQuery.ofExpr text i.value)) (parse language text e).2 := by
        have hpair : parse language text e = (.ok i, (parse language text e).2) := Prod.ext hi rfl
        rw [compileWith, hpair]
      have hmiss :
          ((compiledSlot language).read (parse language text e).2).lookup? text = none := by
        have hheld := hparse.others (.compile language text) (by simp)
        rwa [held?, held?, hlookup, Option.map_none, Option.map_eq_none_iff] at hheld
      obtain ⟨hq, hrecords⟩ := (shelf_compiled language).records_miss hlookup hbuild
        (hunbounded.compiled language) hmiss
      exact ⟨_, hq, .inr hrecords⟩

end Engine

end TreeQuery
