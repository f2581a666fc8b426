import Mathlib.Data.List.Basic
import TreeQuery.Proofs.Engine.Cached

/-!
Requests whose text cannot be read. Only what can be read stands in a cache, so such a text is found
in none of them, and a build that fails puts nothing in: the engine is the same afterwards, to the
order of the entries.
-/
namespace TreeQuery

/-! ## Texts that are in no cache -/

/-- A text that stands for nothing is not found. -/
theorem Cache.Holds.lookup?_eq_none {α : Type} {c : Cache (Instance α)} {key : String}
    {made : String → Except QueryError α} {err : QueryError} (h : c.Holds made)
    (hmade : made key = .error err) : c.lookup? key = none := by
  cases hlookup : c.lookup? key with
  | none => rfl
  | some found => cases hmade.symm.trans (h.of_lookup hlookup)

/-- A build that fails and leaves no trace leaves none behind the cache either. -/
theorem Cache.getOrBuild_untouched {σ α ε : Type} {slot : Slot σ α} {key : String}
    {build : σ → Except ε α × σ} {s : σ} {err : ε}
    (hslot : ∀ s, slot.write (slot.read s) s = s) (hmiss : (slot.read s).lookup? key = none)
    (hbuild : build s = (.error err, s)) : getOrBuild slot key build s = (.error err, s) := by
  rw [getOrBuild_miss hslot hmiss, hbuild, settle, hslot]

/-! ## Requests that fail in reading -/

/-- The text of a request, and its language. -/
def Request.source? : Request → Option (Language × String)
  | parse language text | compile language text => some (language, text)
  | evaluate _ _ _ text => some (.expression, text)
  | select _ _ _ text => some (.selector, text)
  | clear => none

/-- The failure of an answer, when it is one. -/
def Answer.failure? : Answer → Option QueryError
  | expr (.error err) | query (.error err) | value (.error err) | nodes (.error err) => some err
  | _ => none

theorem Language.query_eq_error {language : Language} {text : String} {err : QueryError}
    (h : language.read text = .error err) : language.query text = .error err := by
  rw [query, h]
  rfl

namespace Engine

variable {e : Engine} {language : Language} {text : String} {err : QueryError}

theorem parse_unread (he : e.Consistent) (h : language.read text = .error err) :
    parse language text e = (.error err, e) := by
  cases language with
  | expression =>
      refine Cache.getOrBuild_untouched (fun _ => rfl) (he.expressions.lookup?_eq_none h) ?_
      rw [show Expr.parse text = .error err from h, number]
  | selector =>
      refine Cache.getOrBuild_untouched (fun _ => rfl) (he.selectors.lookup?_eq_none h) ?_
      rw [show Selector.parseToExpr text = .error err from h, number]

/-- To compile looks into two caches, and the text is in neither. -/
theorem compile_unread (he : e.Consistent) (h : language.read text = .error err) :
    compile language text e = (.error err, e) := by
  have hbuild : compileWith (parse language) text e = (.error err, e) := by
    rw [compileWith, parse_unread he h]
  have hquery := Language.query_eq_error h
  cases language with
  | expression =>
      exact Cache.getOrBuild_untouched (fun _ => rfl)
        (he.compiledExpressions.lookup?_eq_none hquery) hbuild
  | selector =>
      exact Cache.getOrBuild_untouched (fun _ => rfl)
        (he.compiledSelectors.lookup?_eq_none hquery) hbuild

/-- One request whose text cannot be read: it fails, and the engine is as before. -/
theorem perform_unread (he : e.Consistent) {request : Request}
    (hsource : request.source? = some (language, text)) (h : language.read text = .error err) :
    (perform request e).1.failure? = some err ∧ (perform request e).2 = e := by
  cases request with
  | parse l t =>
      obtain ⟨rfl, rfl⟩ := Prod.mk.inj (Option.some.inj hsource)
      rw [perform, parse_unread he h]
      exact ⟨rfl, rfl⟩
  | compile l t =>
      obtain ⟨rfl, rfl⟩ := Prod.mk.inj (Option.some.inj hsource)
      rw [perform, compile_unread he h]
      exact ⟨rfl, rfl⟩
  | evaluate v options node t =>
      obtain ⟨rfl, rfl⟩ := Prod.mk.inj (Option.some.inj hsource)
      have hparse : parseExpression t e = (.error err, e) := parse_unread he h
      rw [perform, evaluate, hparse]
      exact ⟨rfl, rfl⟩
  | select v options node t =>
      obtain ⟨rfl, rfl⟩ := Prod.mk.inj (Option.some.inj hsource)
      have hparse : parseSelector t e = (.error err, e) := parse_unread he h
      rw [perform, select, hparse]
      exact ⟨rfl, rfl⟩
  | clear => cases hsource

/-- After any requests to a new engine of any configuration, a request whose text cannot be read
fails by the error of reading it and leaves the whole engine as it was: the entries of every cache
and their order, and the count of what was built. -/
theorem unread_leaves_engine (config : EngineConfig) (earlier : List Request) (request : Request)
    (hsource : request.source? = some (language, text)) (h : language.read text = .error err) :
    let e := (performAll earlier (.new config)).2
    (perform request e).1.failure? = some err ∧ (perform request e).2 = e :=
  perform_unread (performAll_eq_direct earlier (consistent_new config)).2 hsource h

/-- Caches with room for one entry each, and a text without its end: what was read before stays, and
stays in its place. -/
theorem unread_leaves_engine_full :
    let config : EngineConfig := .uniform (.bounded 1 Nat.one_pos)
    let e := (performAll [.compile .expression "a", .parse .selector "b"] (.new config)).2
    let err : QueryError := .parse (.unexpectedEnd "expression") ⟨1, 8⟩
    Language.expression.read "//item[" = .error err ∧
      (perform (.compile .expression "//item[") e).1.failure? = some err ∧
      (perform (.compile .expression "//item[") e).2 = e ∧ e.sizes = (1, 1, 1) := by
  intro config e err
  have htokens : Expr.Tokens.ofText "//item[" =
      ⟨[⟨.doubleSlash, ⟨1, 1⟩⟩, ⟨.name "item", ⟨1, 3⟩⟩, ⟨.leftBracket, ⟨1, 7⟩⟩], .ok ⟨1, 8⟩⟩ :=
    Expr.Tokens.ext (by decide +kernel) (by decide +kernel)
  have hread : Language.expression.read "//item[" = .error err := by
    rw [Language.read, Expr.parse, htokens]
    rfl
  obtain ⟨hfails, hsame⟩ := unread_leaves_engine config
    [.compile .expression "a", .parse .selector "b"] (.compile .expression "//item[") rfl hread
  exact ⟨hread, hfails, hsame, by decide +kernel +zetaReduce⟩

end Engine

end TreeQuery
