import Mathlib.Data.List.FinRange
import Mathlib.Tactic.Choose
import TreeQuery.Engine.Batch
import TreeQuery.Proofs.Engine.Cached
import TreeQuery.Tree.Builder

/-!
Batches in any order. The queries of a batch may be run in any order on one engine, each of them on
the caches that those before it have left, and each puts its answer into its own place. The answers
are those of the queries by themselves, whatever the order is and whatever the caches hold.
-/
namespace TreeQuery

/-! ## Tasks in the order of a schedule -/

namespace Schedule

variable {σ β : Type} {n : Nat}

/-- Runs tasks that share a state one after the other; each leaves its answer in its own place. -/
def runAll (task : Fin n → σ → β × σ) :
    List (Fin n) → (Fin n → Option β) → σ → (Fin n → Option β) × σ
  | [], answers, s => (answers, s)
  | i :: schedule, answers, s =>
    let (answer, s) := task i s
    runAll task schedule (Function.update answers i (some answer)) s

/-- The answers that are there, in the order of the tasks. -/
def collect (answers : Fin n → Option β) : List β := (List.finRange n).filterMap answers

/-- Of the states with a property each task has the same answer in all, and leaves such a state. -/
def Answers (good : σ → Prop) (task : Fin n → σ → β × σ) (answer : Fin n → β) : Prop :=
  ∀ i s, good s → (task i s).1 = answer i ∧ good (task i s).2

variable {good : σ → Prop} {task : Fin n → σ → β × σ} {answer : Fin n → β} {s : σ}
  {schedule : List (Fin n)}

/-- Tasks one after the other: those that were run have left their answers, and no task touches the
place of another. -/
theorem runAll_answers (h : Answers good task answer) (hs : good s) (answers : Fin n → Option β) :
    (∀ i, (runAll task schedule answers s).1 i =
      if i ∈ schedule then some (answer i) else answers i) ∧
      good (runAll task schedule answers s).2 := by
  induction schedule generalizing answers s with
  | nil => exact ⟨fun i => by simp [runAll], hs⟩
  | cons j schedule ih =>
      obtain ⟨hanswer, hafter⟩ := h j s hs
      -- A task that comes up again writes what it has written before.
      obtain ⟨hplaces, hgood⟩ := ih hafter (Function.update answers j (some (task j s).1))
      refine ⟨fun i => (hplaces i).trans ?_, hgood⟩
      by_cases hi : i ∈ schedule
      · rw [if_pos hi, if_pos (List.mem_cons_of_mem j hi)]
      · rw [if_neg hi, hanswer]
        by_cases hij : i = j
        · subst hij
          rw [Function.update_self, if_pos List.mem_cons_self]
        · rw [Function.update_of_ne hij, if_neg (by simp [hij, hi])]

theorem runAll_eq_some (h : Answers good task answer) (hs : good s)
    (hperm : schedule.Perm (List.finRange n)) :
    (runAll task schedule (fun _ => none) s).1 = fun i => some (answer i) := by
  funext i
  rw [(runAll_answers h hs _).1, if_pos (hperm.mem_iff.mpr (List.mem_finRange i))]

theorem collect_some (answer : Fin n → β) :
    collect (fun i => some (answer i)) = (List.finRange n).map answer :=
  congrFun List.filterMap_eq_map' (List.finRange n)

theorem map_finRange {α : Type} (xs : List α) (f : α → β) :
    (List.finRange xs.length).map (fun i => f xs[i]) = xs.map f := by
  calc (List.finRange xs.length).map (fun i => f xs[i])
      = ((List.finRange xs.length).map fun i => xs[i]).map f := List.map_map.symm
    _ = xs.map f := congrArg (List.map f) (List.map_getElem_finRange xs)

end Schedule

/-! ## Batches in the order of a schedule -/

open Schedule (runAll collect)

section
variable (v : View) (options : QueryOptions)

/-- The outcome of an expression at the document node, without any cache. -/
def aloneAtRoot (text : String) : Except QueryError Value :=
  Language.expression.read text >>= fun e => e.evaluate v options View.documentNode

/-- The failure of an outcome, when it is one. -/
def failure? {α : Type} : Except QueryError α → Option QueryError
  | .error err => some err
  | .ok _ => none

namespace Engine

/-- Runs expressions over one tree in the order of a schedule. -/
def runQueries {n : Nat} (texts : Fin n → String) (schedule : List (Fin n)) (e : Engine) :
    (Fin n → Option (Except QueryError Value)) × Engine :=
  runAll (fun i => evaluate v options View.documentNode (texts i)) schedule (fun _ => none) e

/-- The answers to several expressions over one tree. -/
def evaluateAllIn (texts : List String) (schedule : List (Fin texts.length)) (e : Engine) :
    List (Except QueryError Value) × Engine :=
  let (answers, e) := runQueries v options (fun i => texts[i]) schedule e
  (collect answers, e)

/-- The values of several expressions with a key each, in order, if none of them fails. If some do,
the failure that is met first counts. -/
def evaluateKeyedIn (queries : List (String × String)) (schedule : List (Fin queries.length)) :
    Action (List (String × Value)) := fun e =>
  let (answers, e) := runQueries v options (fun i => queries[i].2) schedule e
  match schedule.findSome? fun i => (answers i).bind failure? with
  | some err => (.error err, e)
  | none =>
    (.ok (collect fun i =>
      (answers i).bind fun answer => answer.toOption.map fun value => (queries[i].1, value)), e)

end Engine

/-- The answers to one query over several trees. -/
def CompiledQuery.callAllIn (q : CompiledQuery) (views : List View)
    (schedule : List (Fin views.length)) : List (Except QueryError Value) :=
  collect (runAll (fun i s => (q.call views[i] options View.documentNode, s)) schedule
    (fun _ => none) ()).1

end

/-! ## Answers of batches -/

/-- Keys with what each query of a batch gives by itself, in order. -/
def keyedAlone (alone : String → Except QueryError Value) (queries : List (String × String)) :
    List (String × Except QueryError Value) :=
  queries.map fun (key, text) => (key, alone text)

/-- What a batch with keys may answer: all values with their keys, in order, if no query fails, and
else the failure of one of them. -/
structure Collects (alone : String → Except QueryError Value) (queries : List (String × String))
    (outcome : Except QueryError (List (String × Value))) : Prop where
  ok_iff : (∃ pairs, outcome = .ok pairs) ↔
    ∀ query ∈ queries, ∃ value, alone query.2 = .ok value
  pairs : ∀ pairs, outcome = .ok pairs →
    keyedAlone alone queries = pairs.map fun (key, value) => (key, .ok value)
  failure : ∀ err, outcome = .error err → ∃ query ∈ queries, alone query.2 = .error err

section
variable {alone : String → Except QueryError Value} {queries : List (String × String)}
  {pairs : List (String × Value)} {err : QueryError}

theorem Collects.of_ok
    (h : keyedAlone alone queries = pairs.map fun (key, value) => (key, .ok value)) :
    Collects alone queries (.ok pairs) := by
  refine ⟨⟨fun _ query hquery => ?_, fun _ => ⟨pairs, rfl⟩⟩, fun _ heq => ?_,
    fun _ heq => nomatch heq⟩
  · have hmem : (query.1, alone query.2) ∈ keyedAlone alone queries :=
      List.mem_map.mpr ⟨query, hquery, rfl⟩
    rw [h] at hmem
    obtain ⟨pair, _, hpair⟩ := List.mem_map.mp hmem
    exact ⟨pair.2, (congrArg Prod.snd hpair).symm⟩
  · exact Except.ok.inj heq ▸ h

theorem Collects.of_error (h : ∃ query ∈ queries, alone query.2 = .error err) :
    Collects alone queries (.error err) := by
  obtain ⟨query, hquery, herror⟩ := h
  refine ⟨⟨fun ⟨_, heq⟩ => (nomatch heq), fun hall => ?_⟩, fun _ heq => (nomatch heq),
    fun err' heq => ⟨query, hquery, Except.error.inj heq ▸ herror⟩⟩
  obtain ⟨value, hvalue⟩ := hall query hquery
  rw [herror] at hvalue
  cases hvalue

end

theorem failure?_eq_some_iff {α : Type} {outcome : Except QueryError α} {err : QueryError} :
    failure? outcome = some err ↔ outcome = .error err := by
  cases outcome <;> simp [failure?]

theorem failure?_eq_none_iff {α : Type} {outcome : Except QueryError α} :
    failure? outcome = none ↔ ∃ value, outcome = .ok value := by
  cases outcome <;> simp [failure?]

namespace Engine

variable {v : View} {options : QueryOptions} {e : Engine}

theorem answers_evaluate {n : Nat} (texts : Fin n → String) :
    Schedule.Answers Consistent
      (fun i => evaluate v options View.documentNode (texts i))
      (fun i => aloneAtRoot v options (texts i)) := by
  intro i e he
  obtain ⟨hanswer, hafter⟩ := perform_eq_direct (.evaluate v options View.documentNode (texts i)) he
  exact ⟨Answer.value.inj hanswer, hafter⟩

theorem runQueries_eq {n : Nat} (texts : Fin n → String) {schedule : List (Fin n)}
    (hperm : schedule.Perm (List.finRange n)) (he : e.Consistent) :
    (runQueries v options texts schedule e).1 = fun i => some (aloneAtRoot v options (texts i)) :=
  Schedule.runAll_eq_some (answers_evaluate texts) he hperm

/-- The engine after a batch is the engine after its queries as requests in the order of the
schedule. -/
theorem runQueries_engine {n : Nat} (texts : Fin n → String) (schedule : List (Fin n))
    (e : Engine) :
    (runQueries v options texts schedule e).2 =
      (performAll (schedule.map fun i => .evaluate v options View.documentNode (texts i)) e).2 := by
  suffices h : ∀ answers, (runAll (fun i => evaluate v options View.documentNode (texts i)) schedule
      answers e).2 = (performAll
        (schedule.map fun i => .evaluate v options View.documentNode (texts i)) e).2 from h _
  induction schedule generalizing e with
  | nil => exact fun _ => rfl
  | cons i schedule ih =>
      intro answers
      exact ih _ _

theorem evaluateAllIn_eq {texts : List String} {schedule : List (Fin texts.length)}
    (hperm : schedule.Perm (List.finRange texts.length)) (he : e.Consistent) :
    (evaluateAllIn v options texts schedule e).1 = texts.map (aloneAtRoot v options) := by
  simp only [evaluateAllIn, runQueries_eq _ hperm he, Schedule.collect_some]
  exact Schedule.map_finRange texts (aloneAtRoot v options)

theorem evaluateKeyedIn_collects {queries : List (String × String)}
    {schedule : List (Fin queries.length)}
    (hperm : schedule.Perm (List.finRange queries.length)) (he : e.Consistent) :
    Collects (aloneAtRoot v options) queries (evaluateKeyedIn v options queries schedule e).1 := by
  simp only [evaluateKeyedIn, runQueries_eq _ hperm he, Option.bind_some]
  cases hfound : schedule.findSome? fun i => failure? (aloneAtRoot v options queries[i].2) with
  | some err =>
      obtain ⟨i, _, hi⟩ := List.exists_of_findSome?_eq_some hfound
      exact .of_error ⟨queries[i], List.getElem_mem i.isLt, failure?_eq_some_iff.mp hi⟩
  | none =>
      rw [List.findSome?_eq_none_iff] at hfound
      have hvalue : ∀ i : Fin queries.length, ∃ value,
          aloneAtRoot v options queries[i].2 = .ok value := fun i =>
        failure?_eq_none_iff.mp (hfound i (hperm.mem_iff.mpr (List.mem_finRange i)))
      choose value hvalue using hvalue
      refine .of_ok ?_
      simp only [hvalue, Except.toOption, Option.map_some, Schedule.collect_some, List.map_map]
      rw [keyedAlone, ← Schedule.map_finRange]
      exact List.map_congr_left fun i _ => congrArg (Prod.mk _) (hvalue i)

/-! ### Batches in the order of their queries -/

theorem evaluateAll_eq (texts : List String) (he : e.Consistent) :
    (evaluateAll v options texts e).1 = texts.map (aloneAtRoot v options) := by
  induction texts generalizing e with
  | nil => rfl
  | cons text texts ih =>
      obtain ⟨hanswer, hafter⟩ :=
        perform_eq_direct (.evaluate v options View.documentNode text) he
      have hfirst : (evaluate v options View.documentNode text e).1 =
          aloneAtRoot v options text := Answer.value.inj hanswer
      rw [List.map_cons, ← ih hafter, ← hfirst]
      rfl

theorem collects_mapM (alone : String → Except QueryError Value)
    (queries : List (String × String)) :
    Collects alone queries
      ((keyedAlone alone queries).mapM fun (key, answer) =>
        answer.map fun value => (key, value)) := by
  induction queries with
  | nil => exact .of_ok rfl
  | cons query queries ih =>
      obtain ⟨key, text⟩ := query
      have hcons : keyedAlone alone ((key, text) :: queries) =
          (key, alone text) :: keyedAlone alone queries := rfl
      rw [hcons, List.mapM_cons]
      cases hfirst : alone text with
      | error err => exact .of_error ⟨(key, text), List.mem_cons_self, hfirst⟩
      | ok value =>
          change Collects alone _ (Except.ok (key, value) >>= _)
          rw [ok_bind]
          cases hrest : (keyedAlone alone queries).mapM
              fun (key, answer) => answer.map fun value => (key, value) with
          | error err =>
              obtain ⟨query, hquery, herror⟩ := ih.failure err hrest
              exact .of_error ⟨query, List.mem_cons_of_mem _ hquery, herror⟩
          | ok pairs =>
              refine .of_ok ?_
              rw [hcons, ih.pairs pairs hrest, hfirst]
              rfl

theorem evaluateKeyed_collects (queries : List (String × String)) (he : e.Consistent) :
    Collects (aloneAtRoot v options) queries (evaluateKeyed v options queries e).1 := by
  have hanswers := @evaluateAll_eq v options e (queries.map (·.2)) he
  have hzip : (queries.map (·.1)).zip ((queries.map (·.2)).map (aloneAtRoot v options)) =
      keyedAlone (aloneAtRoot v options) queries := by
    rw [List.map_map, List.zip_map', keyedAlone]
    rfl
  simp only [evaluateKeyed, hanswers, hzip]
  exact collects_mapM _ queries

end Engine

theorem CompiledQuery.callAllIn_eq (q : CompiledQuery) (views : List View)
    (options : QueryOptions) {schedule : List (Fin views.length)}
    (hperm : schedule.Perm (List.finRange views.length)) :
    q.callAllIn options views schedule =
      views.map fun v => q.call v options View.documentNode := by
  have hcall : Schedule.Answers (fun _ : Unit => True)
      (fun (i : Fin views.length) s => (q.call views[i] options View.documentNode, s))
      (fun i => q.call views[i] options View.documentNode) := fun _ _ _ => ⟨rfl, trivial⟩
  rw [callAllIn, Schedule.runAll_eq_some hcall trivial hperm, Schedule.collect_some]
  exact Schedule.map_finRange views fun v => q.call v options View.documentNode

namespace Engine

/-- After any requests to an engine of any configuration, a batch answers each of its queries as if
that query were alone and nothing were cached, whatever the order is in which its queries are run;
one with keys collects these answers. The engine is then left as after the queries as requests, so
batches may be among those that were made before. A query over several trees is answered for each
of them as for that tree alone. -/
theorem batches_answer_as_alone :
    (∀ (config : EngineConfig) (requests : List Request) (v : View) (options : QueryOptions),
      let e := (performAll requests (.new config)).2
      (∀ (texts : List String) (schedule : List (Fin texts.length)),
        schedule.Perm (List.finRange texts.length) →
          (evaluateAllIn v options texts schedule e).1 = texts.map (aloneAtRoot v options) ∧
          (evaluateAllIn v options texts schedule e).1 = (evaluateAll v options texts e).1 ∧
          (evaluateAllIn v options texts schedule e).2 = (performAll (schedule.map fun i =>
            .evaluate v options View.documentNode texts[i]) e).2) ∧
      (∀ (queries : List (String × String)) (schedule : List (Fin queries.length)),
        schedule.Perm (List.finRange queries.length) →
          Collects (aloneAtRoot v options) queries
            (evaluateKeyedIn v options queries schedule e).1 ∧
          Collects (aloneAtRoot v options) queries (evaluateKeyed v options queries e).1)) ∧
    (∀ (q : CompiledQuery) (views : List View) (options : QueryOptions)
      (schedule : List (Fin views.length)), schedule.Perm (List.finRange views.length) →
        q.callAllIn options views schedule =
          views.map (fun v => q.call v options View.documentNode) ∧
        q.callAllIn options views schedule = q.callAll views options) := by
  refine ⟨fun config requests v options => ?_, fun q views options schedule hperm => ?_⟩
  · have he := (performAll_eq_direct requests (consistent_new config)).2
    refine ⟨fun texts schedule hperm => ⟨evaluateAllIn_eq hperm he, ?_, ?_⟩,
      fun queries schedule hperm =>
        ⟨evaluateKeyedIn_collects hperm he, evaluateKeyed_collects queries he⟩⟩
    · exact (evaluateAllIn_eq hperm he).trans (evaluateAll_eq texts he).symm
    · exact runQueries_engine (fun i => texts[i]) schedule _
  · have hcall := q.callAllIn_eq views options hperm
    exact ⟨hcall, hcall⟩

/-- Three queries of which one fails, the last one first, on caches that hold one entry. -/
theorem batches_answer_as_alone_backwards :
    let e := (performAll [.compile .selector "a"] (.new (.uniform (.bounded 1 Nat.one_pos)))).2
    let v := (Document.ofEvents [.empty "a" []]).view
    let schedule : List (Fin 3) := [2, 1, 0]
    schedule.Perm (List.finRange 3) ∧
      (evaluateAllIn v {} ["'s'", "$x", "'t'"] schedule e).1 =
        [.ok (.string "s"), .error (.unboundVariable "x"), .ok (.string "t")] ∧
      (∀ pairs, (evaluateKeyedIn v {} [("k", "'s'"), ("l", "$x"), ("m", "'t'")] schedule e).1 ≠
        .ok pairs) ∧
      (⟨"/", ⟨[.root]⟩⟩ : CompiledQuery).callAllIn {} [v, v, v] schedule =
        List.replicate 3 (.ok (.nodes [0])) := by
  intro e v schedule
  have hperm : schedule.Perm (List.finRange 3) := by decide
  have hbatch := batches_answer_as_alone.1 (.uniform (.bounded 1 Nat.one_pos))
    [.compile .selector "a"] v {}
  have hfirst : aloneAtRoot v {} "'s'" = .ok (.string "s") := by decide +kernel
  have hvariable : aloneAtRoot v {} "$x" = .error (.unboundVariable "x") := by decide +kernel
  have hlast : aloneAtRoot v {} "'t'" = .ok (.string "t") := by decide +kernel
  refine ⟨hperm, (hbatch.1 ["'s'", "$x", "'t'"] schedule hperm).1.trans ?_,
    fun pairs hpairs => ?_, ?_⟩
  · rw [List.map_cons, List.map_cons, List.map_cons, List.map_nil, hfirst, hvariable, hlast]
  · have hcollects := (hbatch.2 [("k", "'s'"), ("l", "$x"), ("m", "'t'")] schedule hperm).1
    obtain ⟨value, hvalue⟩ := hcollects.ok_iff.mp ⟨pairs, hpairs⟩ ("l", "$x") (by simp)
    rw [hvariable] at hvalue
    cases hvalue
  · exact (batches_answer_as_alone.2 _ [v, v, v] {} schedule hperm).1

end Engine

end TreeQuery
