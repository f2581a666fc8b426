import Mathlib.Data.Finset.Card
import TreeQuery.Proofs.Engine.Failures
import TreeQuery.Proofs.Engine.Held

/-!
Which instances an engine gives out when nothing is forgotten. From one clearing to the next each
text that is read or compiled in a language stands for one instance, which was built under a number
of its own. So an instance tells what it was asked for with, and the caches hold one entry for each
text that was asked for and could be read.
-/
namespace TreeQuery

/-! ## Keys of a cache -/

namespace Cache

variable {α : Type} {c c' : Cache α}

theorem Evolves.nodup_keys (h : c.Evolves c') (hc : c.keys.Nodup) : c'.keys.Nodup := by
  induction h with
  | refl => exact hc
  | tail _ hchange ih => exact hchange.nodup_keys ih

theorem size_eq_card (hc : c.keys.Nodup) {texts : Finset String}
    (htexts : ∀ text, (c.lookup? text).isSome ↔ text ∈ texts) : c.size = texts.card := by
  have hkeys : c.keys.toFinset = texts := by
    ext text
    rw [List.mem_toFinset, ← isSome_lookup?_iff, htexts]
  rw [← hkeys, List.toFinset_card_of_nodup hc, keys, List.length_map, size]

end Cache

/-! ## What requests ask for -/

namespace Request

/-- The requests for an expression or a compiled query that come with a request. -/
def needs : Request → List Request
  | parse language text => [parse language text]
  | compile language text => [parse language text, compile language text]
  | evaluate _ _ _ text => [parse .expression text]
  | select _ _ _ text => [parse .selector text]
  | clear => []

/-- The text and its language, of a request that compiles. -/
def compiled? : Request → Option (Language × String)
  | compile language text => some (language, text)
  | _ => none

/-- The request asks for an expression or a compiled query, and its text can be read. -/
def yields : Request → Bool
  | parse language text | compile language text => (language.read text).isOk
  | _ => false

/-- The text of the request can be read. -/
def Accepted (request : Request) : Prop :=
  ∃ language text expr, request.source? = some (language, text) ∧ language.read text = .ok expr

variable {request : Request} {language : Language} {text : String}

/-- Whatever is not to clear the caches has a text. -/
theorem exists_source? (hclear : request ≠ .clear) : ∃ source, request.source? = some source := by
  cases request with
  | parse language text => exact ⟨_, rfl⟩
  | compile language text => exact ⟨_, rfl⟩
  | evaluate v options node text => exact ⟨_, rfl⟩
  | select v options node text => exact ⟨_, rfl⟩
  | clear => exact absurd rfl hclear

theorem source?_of_mem_needs {r : Request} (h : r ∈ request.needs) :
    r.source? = request.source? := by
  cases request <;> simp only [needs, List.mem_cons, List.not_mem_nil, or_false] at h
  case parse => rw [h]
  case compile => rcases h with rfl | rfl <;> rfl
  case evaluate => rw [h]; rfl
  case select => rw [h]; rfl

theorem parse_mem_needs_iff :
    parse language text ∈ request.needs ↔ request.source? = some (language, text) := by
  cases request <;> simp [needs, source?, eq_comm]

theorem compile_mem_needs_iff :
    compile language text ∈ request.needs ↔ request.compiled? = some (language, text) := by
  cases request <;> simp [needs, compiled?, eq_comm]

theorem accepted_parse_iff :
    (parse language text).Accepted ↔ ∃ expr, language.read text = .ok expr := by
  simp [Accepted, source?, and_assoc]

theorem accepted_compile_iff :
    (compile language text).Accepted ↔ ∃ expr, language.read text = .ok expr := by
  simp [Accepted, source?, and_assoc]

theorem Accepted.of_mem_needs {r : Request} (h : r ∈ request.needs) :
    r.Accepted ↔ request.Accepted := by
  rw [Accepted, source?_of_mem_needs h, Accepted]

end Request

namespace Engine

/-! ## What requests are given -/

/-- What a request is given, when it asks for an expression or a compiled query and gets one. -/
def handout? (request : Request) (e : Engine) : Option Handout :=
  match request with
  | .parse language text => (parse language text e).1.toOption.map .expr
  | .compile language text => (compile language text e).1.toOption.map .query
  | _ => none

/-- The requests, of some one after the other, that are given something, with what it is. -/
def handouts : List Request → Engine → List (Request × Handout)
  | [], _ => []
  | request :: requests, e =>
    ((handout? request e).map (request, ·)).toList ++ handouts requests (perform request e).2

variable {e e' e'' : Engine} {request : Request} {handout : Handout} {past : List Request}

/-- One engine has what another one has, and what some requests ask for. -/
structure Gains (asked : List Request) (e e' : Engine) : Prop where
  keeps : ∀ r h, e.held? r = some h → e'.held? r = some h
  isSome_iff : ∀ r, (e'.held? r).isSome ↔ (e.held? r).isSome ∨ r ∈ asked
  numbered : e.Numbered → e'.Numbered

theorem gains_of_held (h : (e.held? request).isSome) : Gains [request] e e := by
  refine ⟨fun _ _ hheld => hheld, fun r => ?_, id⟩
  rw [List.mem_singleton, iff_self_or]
  rintro rfl
  exact h

theorem Records.gains (h : Records request handout e e') : Gains [request] e e' :=
  ⟨fun _ _ => h.keeps, fun r => by rw [h.isSome_iff, List.mem_singleton], h.numbered⟩

theorem Gains.append {asked asked' : List Request} (h : Gains asked e e')
    (h' : Gains asked' e' e'') : Gains (asked ++ asked') e e'' :=
  ⟨fun r x hheld => h'.keeps r x (h.keeps r x hheld),
    fun r => by rw [h'.isSome_iff, h.isSome_iff, List.mem_append, or_assoc],
    fun he => h'.numbered (h.numbered he)⟩

/-- An engine that was new or cleared has come to hold what some requests ask for, as far as it can
be read. -/
structure Covers (past : List Request) (e : Engine) : Prop where
  evolves : Evolves (.new {}) e
  consistent : e.Consistent
  numbered : e.Numbered
  isSome_iff : ∀ r, (e.held? r).isSome ↔ r.Accepted ∧ ∃ q ∈ past, r ∈ q.needs

theorem Covers.unbounded (h : Covers past e) : e.Unbounded := h.evolves.unbounded unbounded_new

/-- What was compiled was read before. -/
theorem Covers.read_of_compiled (h : Covers past e) {language : Language} {text : String}
    (hcompiled : (e.held? (.compile language text)).isSome) :
    (e.held? (.parse language text)).isSome := by
  obtain ⟨haccepted, q, hq, hneeds⟩ := (h.isSome_iff _).mp hcompiled
  exact (h.isSome_iff _).mpr
    ⟨haccepted, q, hq, Request.parse_mem_needs_iff.mpr (Request.source?_of_mem_needs hneeds).symm⟩

theorem gains_parse (he : e.Unbounded) {language : Language} {text : String} {expr : Expr}
    (hread : language.read text = .ok expr) :
    Gains [.parse language text] e (parse language text e).2 := by
  obtain ⟨i, -, hrecords⟩ := records_parse he hread
  exact hrecords.gains

theorem Covers.gains_compile (h : Covers past e) {language : Language} {text : String} {expr : Expr}
    (hread : language.read text = .ok expr) :
    Gains [.parse language text, .compile language text] e (compile language text e).2 := by
  obtain ⟨i, -, ⟨hcompiled, hrecords⟩ | hrecords⟩ := records_compile h.unbounded hread
  · exact (gains_of_held (h.read_of_compiled hcompiled)).append hrecords.gains
  · exact (gains_parse h.unbounded hread).append hrecords.gains

/-- One request: what it asks for is held afterwards, if its text can be read, and otherwise nothing
has changed. -/
theorem Covers.cases_perform (h : Covers past e) (hclear : request ≠ .clear) :
    request.Accepted ∧ Gains request.needs e (perform request e).2 ∨
      ¬ request.Accepted ∧ (perform request e).2 = e := by
  obtain ⟨⟨language, text⟩, hsource⟩ := Request.exists_source? hclear
  cases hread : language.read text with
  | error err =>
      refine .inr ⟨?_, (perform_unread h.consistent hsource hread).2⟩
      rintro ⟨l, t, expr, hsource', hread'⟩
      obtain ⟨rfl, rfl⟩ := Prod.mk.inj (Option.some.inj (hsource.symm.trans hsource'))
      rw [hread] at hread'
      cases hread'
  | ok expr =>
      refine .inl ⟨⟨language, text, expr, hsource, hread⟩, ?_⟩
      cases request with
      | parse l t =>
          obtain ⟨rfl, rfl⟩ := Prod.mk.inj (Option.some.inj hsource)
          exact gains_parse h.unbounded hread
      | compile l t =>
          obtain ⟨rfl, rfl⟩ := Prod.mk.inj (Option.some.inj hsource)
          exact h.gains_compile hread
      | evaluate v options node t =>
          obtain ⟨rfl, rfl⟩ := Prod.mk.inj (Option.some.inj hsource)
          exact gains_parse h.unbounded hread
      | select v options node t =>
          obtain ⟨rfl, rfl⟩ := Prod.mk.inj (Option.some.inj hsource)
          exact gains_parse h.unbounded hread
      | clear => cases hsource

theorem Covers.perform (h : Covers past e) (hclear : request ≠ .clear) :
    Covers (past ++ [request]) (perform request e).2 := by
  have hevolves := h.evolves.trans (evolves_perform request e)
  have hconsistent := (perform_eq_direct request h.consistent).2
  have hsnoc : ∀ r : Request, (∃ q ∈ past ++ [request], r ∈ q.needs) ↔
      (∃ q ∈ past, r ∈ q.needs) ∨ r ∈ request.needs := by
    intro r
    simp only [List.mem_append, List.mem_singleton, or_and_right, exists_or, exists_eq_left]
  rcases h.cases_perform hclear with ⟨haccepted, hgains⟩ | ⟨hunread, hsame⟩
  · refine ⟨hevolves, hconsistent, hgains.numbered h.numbered, fun r => ?_⟩
    have hneeds : r ∈ request.needs → r.Accepted :=
      fun hr => (Request.Accepted.of_mem_needs hr).mpr haccepted
    rw [hgains.isSome_iff, h.isSome_iff, hsnoc, and_or_left, and_iff_right_of_imp hneeds]
  · refine ⟨hevolves, hconsistent, hsame.symm ▸ h.numbered, fun r => ?_⟩
    have hneeds : ¬ (r.Accepted ∧ r ∈ request.needs) := by
      rintro ⟨haccepted, hr⟩
      exact hunread ((Request.Accepted.of_mem_needs hr).mp haccepted)
    rw [hsame, h.isSome_iff, hsnoc, and_or_left, or_iff_left hneeds]

theorem Covers.keeps_perform (h : Covers past e) (hclear : request ≠ .clear) {r : Request}
    {x : Handout} (hheld : e.held? r = some x) : (Engine.perform request e).2.held? r = some x := by
  rcases h.cases_perform hclear with ⟨-, hgains⟩ | ⟨-, hsame⟩
  · exact hgains.keeps r x hheld
  · rw [hsame, hheld]

/-- A request is given something just when it asks for it and its text can be read, and what it is
given is held for it afterwards. -/
theorem Covers.cases_handout? (h : Covers past e) (request : Request) :
    request.yields = true ∧ (∃ x, handout? request e = some x ∧
        (Engine.perform request e).2.held? request = some x) ∨
      request.yields = false ∧ handout? request e = none := by
  cases request with
  | parse language text =>
      rw [handout?, Request.yields]
      cases hread : language.read text with
      | error err =>
          rw [parse_unread h.consistent hread]
          exact .inr ⟨rfl, rfl⟩
      | ok expr =>
          obtain ⟨i, hi, hrecords⟩ := records_parse h.unbounded hread
          rw [hi]
          exact .inl ⟨rfl, .expr i, rfl, hrecords.same⟩
  | compile language text =>
      rw [handout?, Request.yields]
      cases hread : language.read text with
      | error err =>
          rw [compile_unread h.consistent hread]
          exact .inr ⟨rfl, rfl⟩
      | ok expr =>
          obtain ⟨i, hi, hrecords⟩ := records_compile h.unbounded hread
          rw [hi]
          exact .inl ⟨rfl, .query i, rfl, hrecords.elim (·.2.same) (·.same)⟩
  | evaluate v options node text => exact .inr ⟨rfl, rfl⟩
  | select v options node text => exact .inr ⟨rfl, rfl⟩
  | clear => exact .inr ⟨rfl, rfl⟩

/-- Requests one after the other: what they are given is held at the end, with what was held
before. -/
theorem Covers.performAll (h : Covers past e) {requests : List Request}
    (hclear : .clear ∉ requests) :
    Covers (past ++ requests) (performAll requests e).2 ∧
      (handouts requests e).map (·.1) = requests.filter Request.yields ∧
      (∀ r x, e.held? r = some x → (Engine.performAll requests e).2.held? r = some x) ∧
      (∀ p ∈ handouts requests e, (Engine.performAll requests e).2.held? p.1 = some p.2) := by
  induction requests generalizing past e with
  | nil => exact ⟨by rwa [List.append_nil], rfl, fun _ _ hheld => hheld, nofun⟩
  | cons request requests ih =>
      rw [List.mem_cons, not_or] at hclear
      have hne : request ≠ .clear := Ne.symm hclear.1
      obtain ⟨hcovers, hasked, hkeeps, hgiven⟩ := ih (h.perform hne) hclear.2
      refine ⟨by rwa [List.append_assoc] at hcovers, ?_,
        fun r x hheld => hkeeps r x (h.keeps_perform hne hheld), ?_⟩
      · rcases h.cases_handout? request with ⟨hyields, x, hx, -⟩ | ⟨hyields, hnone⟩
        · rw [handouts, hx, List.filter_cons_of_pos hyields, ← hasked]
          rfl
        · rw [handouts, hnone, List.filter_cons_of_neg (by rw [hyields]; decide), ← hasked]
          rfl
      · intro p hp
        rcases h.cases_handout? request with ⟨-, x, hx, hheld⟩ | ⟨-, hnone⟩
        · rw [handouts, hx] at hp
          rcases List.mem_cons.mp hp with rfl | hp
          · exact hkeeps _ _ hheld
          · exact hgiven p hp
        · rw [handouts, hnone] at hp
          exact hgiven p hp

/-! ## Counting -/

/-- The texts of a language that requests bring and that can be read, each of them once. -/
def acceptedTexts (source : Request → Option (Language × String)) (language : Language)
    (requests : List Request) : Finset String :=
  (((requests.filterMap source).filter fun s => s.1 = language ∧ (language.read s.2).isOk).map
    (·.2)).toFinset

theorem mem_acceptedTexts {source : Request → Option (Language × String)} {language : Language}
    {requests : List Request} {text : String} :
    text ∈ acceptedTexts source language requests ↔
      (∃ expr, language.read text = .ok expr) ∧
        ∃ r ∈ requests, source r = some (language, text) := by
  have hread : (language.read text).isOk ↔ ∃ expr, language.read text = .ok expr := by
    cases language.read text <;> simp [Except.isOk, Except.toBool]
  rw [← hread]
  simp only [acceptedTexts, List.mem_toFinset, List.mem_map, List.mem_filter, List.mem_filterMap]
  constructor
  · rintro ⟨⟨l, t⟩, ⟨⟨r, hr, hsource⟩, hok⟩, rfl⟩
    obtain ⟨rfl, hok⟩ := of_decide_eq_true hok
    exact ⟨hok, r, hr, hsource⟩
  · rintro ⟨hok, r, hr, hsource⟩
    exact ⟨(language, text), ⟨⟨r, hr, hsource⟩, decide_eq_true ⟨rfl, hok⟩⟩, rfl⟩

theorem Evolves.nodup_read (h : Evolves (.new {}) e) (language : Language) :
    ((readSlot language).read e).keys.Nodup := by
  cases language with
  | expression => exact h.expressions.nodup_keys .nil
  | selector => exact h.selectors.nodup_keys .nil

theorem Evolves.nodup_compiled (h : Evolves (.new {}) e) (language : Language) :
    ((compiledSlot language).read e).keys.Nodup := by
  cases language with
  | expression => exact h.compiledExpressions.nodup_keys .nil
  | selector => exact h.compiledSelectors.nodup_keys .nil

/-- The cache of what was read in a language has one entry for each text that can be read. -/
theorem Covers.size_read (h : Covers past e) (language : Language) :
    ((readSlot language).read e).size = (acceptedTexts Request.source? language past).card := by
  refine Cache.size_eq_card (h.evolves.nodup_read language) fun text => ?_
  have hheld := h.isSome_iff (.parse language text)
  simp only [Request.accepted_parse_iff, Request.parse_mem_needs_iff] at hheld
  rw [mem_acceptedTexts, ← hheld, held?, Option.isSome_map]

/-- The cache of what was compiled from a language has one entry for each text that was to be
compiled and can be read. -/
theorem Covers.size_compiled (h : Covers past e) (language : Language) :
    ((compiledSlot language).read e).size =
      (acceptedTexts Request.compiled? language past).card := by
  refine Cache.size_eq_card (h.evolves.nodup_compiled language) fun text => ?_
  have hheld := h.isSome_iff (.compile language text)
  simp only [Request.accepted_compile_iff, Request.compile_mem_needs_iff] at hheld
  rw [mem_acceptedTexts, ← hheld, held?, Option.isSome_map]

/-! ## Start -/

/-- An engine that forgets nothing, as it is when it is new and after each clearing. -/
inductive Fresh : Engine → Prop
  | new : Fresh (.new {})
  | cleared (earlier : List Request) : Fresh (performAll earlier (.new {})).2.clear

/-- A fresh engine holds nothing. -/
theorem Fresh.covers (h : Fresh e) : Covers [] e := by
  have hevolves : Evolves (.new {}) e := by
    cases h with
    | new => exact .refl _
    | cleared earlier => exact (evolves_performAll earlier _).trans (evolves_perform .clear _)
  have hconsistent : e.Consistent := by
    cases h with
    | new => exact consistent_new {}
    | cleared earlier => exact .clear
  have hheld : ∀ r, e.held? r = none := by
    intro r
    cases h <;> rcases r with (_ | _) | (_ | _) | _ | _ | _ <;> rfl
  refine ⟨hevolves, hconsistent, ⟨?_, ?_⟩, ?_⟩
  · intro r x hx
    rw [hheld] at hx
    cases hx
  · intro r r' x x' hx
    rw [hheld] at hx
    cases hx
  · intro r
    simp [hheld]

/-- From when it was new or cleared until it is cleared again, an engine that forgets nothing gives
something to just those requests that ask for an expression or a compiled query whose text can be
read. Requests for the same text in the same language are given the same instance, and no others
share one. The caches have one entry for each text of their language that can be read, however the
text came to be read or compiled. -/
theorem one_instance_each {start : Engine} (hstart : start.Fresh) (requests : List Request)
    (hclear : .clear ∉ requests) :
    let given := handouts requests start
    given.map (·.1) = requests.filter Request.yields ∧
      (∀ p ∈ given, ∀ q ∈ given,
        (p.1 = q.1 → p.2 = q.2) ∧ (p.2.serial = q.2.serial → p.1 = q.1)) ∧
      (performAll requests start).2.sizes =
        ((acceptedTexts Request.source? .expression requests).card,
          (acceptedTexts Request.source? .selector requests).card,
          (acceptedTexts Request.compiled? .expression requests).card +
            (acceptedTexts Request.compiled? .selector requests).card) := by
  intro given
  obtain ⟨hcovers, hasked, -, hgiven⟩ := hstart.covers.performAll hclear
  rw [List.nil_append] at hcovers
  refine ⟨hasked, fun p hp q hq => ⟨fun hsame => ?_, fun hserial => ?_⟩, ?_⟩
  · have hheld := hgiven p hp
    rw [hsame, hgiven q hq] at hheld
    exact (Option.some.inj hheld).symm
  · exact hcovers.numbered.distinct _ _ _ _ (hgiven p hp) (hgiven q hq) hserial
  · rw [← hcovers.size_read, ← hcovers.size_read, ← hcovers.size_compiled, ← hcovers.size_compiled]
    rfl

/-- The same name in both languages, after a clearing: compiling reads first, and what was given out
is given again. The text without its end is in no cache. -/
theorem one_instance_each_mixed :
    let start := (performAll [.parse .expression "a"] (.new {})).2.clear
    let requests : List Request := [.compile .expression "a", .parse .expression "a",
      .parse .selector "a", .parse .expression "//item[", .compile .expression "a"]
    let given := handouts requests start
    start.Fresh ∧ .clear ∉ requests ∧ given.map (·.2.serial) = [2, 1, 3, 2] ∧
      (∀ p ∈ given, ∀ q ∈ given, p.1 = q.1 ↔ p.2.serial = q.2.serial) ∧
      (performAll requests start).2.sizes = (1, 1, 1) := by
  intro start requests given
  have hstart : start.Fresh := .cleared [.parse .expression "a"]
  have hclear : .clear ∉ requests := by simp [requests]
  obtain ⟨-, hshared, -⟩ := one_instance_each hstart requests hclear
  refine ⟨hstart, hclear, by decide +kernel +zetaReduce, fun p hp q hq => ?_,
    by decide +kernel +zetaReduce⟩
  exact ⟨fun hsame => congrArg Handout.serial ((hshared p hp q hq).1 hsame), (hshared p hp q hq).2⟩

end Engine

end TreeQuery
