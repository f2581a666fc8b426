import Mathlib.Data.List.Chain
import TreeQuery.Proofs.Cache.Lookups

/-!
A cache through its uses, those that a build makes while its text is still missing among them.
Every use changes the cache in one of four ways, so at every moment the entries fit the capacity,
and a text that stays in the cache keeps its value. A build that goes by what it finds does, from
the cache at hand, one list of uses and comes to one outcome; the statements hold of all of them.
-/
namespace TreeQuery.Cache

variable {α ε : Type} {c c' : Cache α} {key : String} {value built : α} {err : ε}
  {inner : List (Action ε α)} {outcome : Except ε α}

/-! ## Uses with a build -/

theorem run_build_hit (h : c.lookup? key = some value) :
    run c (.build key inner outcome) =
      (.built (c.touch key value).size (.ok value) [], c.touch key value) := by
  rw [run, getOrBuild_hit h]

theorem run_build_miss (h : c.lookup? key = none) :
    run c (.build key inner outcome) =
      (.built ((runAll c inner).2.settle key outcome).2.size
        ((runAll c inner).2.settle key outcome).1 (runAll c inner).1,
      ((runAll c inner).2.settle key outcome).2) := by
  rw [run, getOrBuild_miss (fun _ => rfl) h]

/-- A value that a use with a build gives stands in the cache right after it. -/
theorem lookup?_of_run_build (c : Cache α) {size : Nat} {answers : List (Answer ε α)}
    (hrun : run c (.build key inner outcome) = (.built size (.ok value) answers, c')) :
    c'.lookup? key = some value := by
  cases h : c.lookup? key with
  | some found =>
      rw [run_build_hit h] at hrun
      cases hrun
      rw [lookup?_touch, if_pos rfl]
  | none =>
      rw [run_build_miss h, Prod.mk.injEq, Answer.built.injEq] at hrun
      obtain ⟨⟨-, hvalue, -⟩, rfl⟩ := hrun
      exact lookup?_settle hvalue

/-! ## Changes -/

/-- What can become of a cache from one moment to the next. -/
inductive Change : Cache α → Cache α → Prop where
  | stay (c : Cache α) : Change c c
  | use (c : Cache α) (key : String) (value : α) (hit : c.lookup? key = some value) :
      Change c (c.touch key value)
  | put (c : Cache α) (key : String) (value : α) (miss : c.lookup? key = none) :
      Change c (c.insert key value)
  | clear (c : Cache α) : Change c c.clear

theorem Change.policy_eq (h : Change c c') : c'.policy = c.policy := by
  cases h with
  | stay => rfl
  | use => rfl
  | put key value => exact policy_trim (c.touch key value)
  | clear => rfl

/-- A change lets the entries fit the capacity if they did. -/
theorem Change.allows (h : Change c c') (hc : c.policy.Allows c.size) :
    c'.policy.Allows c'.size := by
  rw [h.policy_eq]
  cases h with
  | stay => exact hc
  | use key value hit => exact hc.mono (size_touch_le hit)
  | put key value => exact allows_trim (c.touch key value)
  | clear => exact hc.mono (Nat.zero_le _)

/-- A change gives no other value to a text that is there before it and after it. -/
theorem Change.lookup?_eq (h : Change c c') (hbefore : (c.lookup? key).isSome)
    (hafter : (c'.lookup? key).isSome) : c.lookup? key = c'.lookup? key := by
  cases h with
  | stay => rfl
  | use used value hit => exact (lookup?_touch_of_lookup hit key).symm
  | put missed value miss =>
      have hne : key ≠ missed := by
        rintro rfl
        rw [miss] at hbefore
        cases hbefore
      rcases lookup?_insert_of_ne c value hne with hgone | heq
      · rw [hgone] at hafter
        cases hafter
      · exact heq.symm
  | clear => cases hafter

theorem change_get (c : Cache α) (key : String) :
    Change c (run c (.get key : Action ε α)).2 := by
  rw [run]
  cases h : c.lookup? key with
  | some value =>
      rw [get?_of_lookup h]
      exact .use c key value h
  | none =>
      rw [get?_of_miss h]
      exact .stay c

theorem change_settle (c : Cache α) (key : String) (outcome : Except ε α) :
    Change c (c.settle key outcome).2 := by
  cases outcome with
  | error err => exact .stay c
  | ok built =>
      cases h : c.lookup? key with
      | some value =>
          rw [settle_found h]
          exact .use c key value h
      | none =>
          rw [settle_missed h]
          exact .put c key built h

/-! ## Moments -/

mutual

/-- The moments of the cache while a build runs, if one does. -/
def during (c : Cache α) : Action ε α → List (Cache α)
  | .get _ => []
  | .build key inner _ =>
    match c.lookup? key with
    | some _ => []
    | none => moments c inner
  | .clear => []

/-- The moments of the cache from before the first of some uses until after the last one. -/
def moments (c : Cache α) : List (Action ε α) → List (Cache α)
  | [] => [c]
  | action :: actions => c :: (during c action ++ moments (run c action).2 actions)

end

theorem head?_moments (c : Cache α) (actions : List (Action ε α)) :
    (moments c actions).head? = some c := by
  cases actions <;> rw [moments] <;> rfl

theorem getLast?_moments (c : Cache α) (actions : List (Action ε α)) :
    (moments c actions).getLast? = some (runAll c actions).2 := by
  induction actions generalizing c with
  | nil => rfl
  | cons action actions ih =>
      rw [moments, ← List.cons_append, List.getLast?_append, ih]
      rfl

theorem isChain_cons_of_change {after : List (Cache α)} (h : Change c c')
    (hhead : after.head? = some c') (hafter : after.IsChain Change) :
    (c :: after).IsChain Change := by
  refine List.isChain_cons.mpr ⟨?_, hafter⟩
  rw [hhead]
  rintro _ ⟨rfl⟩
  exact h

mutual

/-- From before a use until after it: the moments of its build, if one runs, lie between. -/
theorem isChain_during (c : Cache α) (action : Action ε α) {after : List (Cache α)}
    (hhead : after.head? = some (run c action).2) (hafter : after.IsChain Change) :
    (c :: (during c action ++ after)).IsChain Change := by
  match action with
  | .get key =>
      rw [during, List.nil_append]
      exact isChain_cons_of_change (change_get c key) hhead hafter
  | .clear =>
      rw [during, List.nil_append]
      exact isChain_cons_of_change (.clear c) hhead hafter
  | .build key inner outcome =>
      rw [during]
      cases h : c.lookup? key with
      | some value =>
          rw [run_build_hit h] at hhead
          exact isChain_cons_of_change (.use c key value h) hhead hafter
      | none =>
          rw [run_build_miss h] at hhead
          -- The build begins with the cache as it is, and one change at most follows its own uses.
          have hinner : (c :: moments c inner).IsChain Change :=
            isChain_cons_of_change (.stay c) (head?_moments c inner) (isChain_moments c inner)
          refine hinner.append hafter ?_
          rw [List.getLast?_cons, getLast?_moments, hhead]
          rintro _ ⟨rfl⟩ _ ⟨rfl⟩
          exact change_settle _ key outcome

theorem isChain_moments (c : Cache α) (actions : List (Action ε α)) :
    (moments c actions).IsChain Change := by
  match actions with
  | [] => exact List.isChain_singleton c
  | action :: actions =>
      rw [moments]
      exact isChain_during c action (head?_moments _ actions) (isChain_moments _ actions)

end

/-- At every moment of some uses the entries fit the capacity if they did before. -/
theorem allows_of_mem_moments (hc : c.policy.Allows c.size) {actions : List (Action ε α)} :
    ∀ moment ∈ moments c actions, moment.policy = c.policy ∧ c.policy.Allows moment.size := by
  have hinvariant : ∀ moment ∈ moments c actions,
      moment.policy = c.policy ∧ moment.policy.Allows moment.size := by
    refine (isChain_moments c actions).induction _ _ ?_ ?_
    · rintro m m' hchange ⟨hpolicy, hallows⟩
      exact ⟨hchange.policy_eq.trans hpolicy, hchange.allows hallows⟩
    · intro hne
      have hhead : (moments c actions).head hne = c :=
        Option.some.inj ((List.head?_eq_some_head hne).symm.trans (head?_moments c actions))
      rw [hhead]
      exact ⟨rfl, hc⟩
  intro moment hmoment
  obtain ⟨hpolicy, hallows⟩ := hinvariant moment hmoment
  exact ⟨hpolicy, hpolicy ▸ hallows⟩

/-- As long as a text stays in the cache it keeps its value. -/
theorem lookup?_eq_of_stays {actions : List (Action ε α)} {stretch : List (Cache α)}
    (hstretch : c' :: stretch <:+: moments c actions) (hvalue : c'.lookup? key = some value)
    (hstays : ∀ moment ∈ stretch, (moment.lookup? key).isSome) :
    ∀ moment ∈ stretch, moment.lookup? key = some value := by
  -- A text cannot go and come back with another value between two moments: that takes two changes.
  have hchain : (c' :: stretch).IsChain fun m m' => m.lookup? key = m'.lookup? key := by
    obtain ⟨before, after, hmoments⟩ := hstretch
    have hwhole : (before ++ c' :: stretch ++ after).IsChain Change :=
      hmoments ▸ isChain_moments c actions
    refine hwhole.left_of_append.right_of_append.imp_of_mem_imp ?_
    intro m m' hm hm' hchange
    have hthere : ∀ moment ∈ c' :: stretch, (moment.lookup? key).isSome := by
      simpa [hvalue] using hstays
    exact hchange.lookup?_eq (hthere m hm) (hthere m' hm')
  exact hchain.cons_induction _ _ (fun m m' heq hm => heq.symm.trans hm) hvalue

/-! ## What a cache keeps -/

/-- From any state of a cache of any policy, for any uses that a build makes and any outcome of it:
a text that is there is not built, and its value is given. A value that is given stands in the cache
right afterwards. When a build has made a value and its text is there by then, what is there is
given and what was made is dropped. A build that fails leaves what its own uses have left. At no
moment of any uses are there more entries than the policy allows, and a text that stays in the cache
keeps its value. -/
theorem keeps_what_it_gives (policy : CachePolicy) (earlier : List (Action ε α)) (key : String)
    (inner : List (Action ε α)) (outcome : Except ε α) :
    let c := (runAll (.empty policy) earlier).2
    let answers := (runAll c inner).1
    let left := (runAll c inner).2
    (∀ value, c.lookup? key = some value →
      run c (.build key inner outcome) =
        (.built (c.touch key value).size (.ok value) [], c.touch key value)) ∧
    (∀ size value answers after,
      run c (.build key inner outcome) = (.built size (.ok value) answers, after) →
        after.lookup? key = some value) ∧
    (c.lookup? key = none →
      (∀ built value, outcome = .ok built → left.lookup? key = some value →
        run c (.build key inner outcome) =
          (.built (left.touch key value).size (.ok value) answers, left.touch key value)) ∧
      (∀ err, outcome = .error err →
        run c (.build key inner outcome) = (.built left.size (.error err) answers, left))) ∧
    (∀ (actions : List (Action ε α)), ∀ moment ∈ moments (.empty policy) actions,
      policy.Allows moment.size) ∧
    (∀ (actions : List (Action ε α)) (text : String) (value : α) (start : Cache α)
      (stretch : List (Cache α)), start :: stretch <:+: moments (.empty policy) actions →
      start.lookup? text = some value → (∀ moment ∈ stretch, (moment.lookup? text).isSome) →
        ∀ moment ∈ stretch, moment.lookup? text = some value) := by
  intro c answers left
  refine ⟨fun value h => run_build_hit h, fun size value answers after => lookup?_of_run_build c,
    fun h => ⟨?_, ?_⟩, ?_, ?_⟩
  · rintro built value rfl hfound
    rw [run_build_miss h, settle_found hfound]
  · rintro err rfl
    rw [run_build_miss h, settle]
  · have hempty : policy.Allows (Cache.empty policy : Cache α).size := by
      cases policy with
      | unbounded => trivial
      | bounded capacity positive => exact Nat.zero_le capacity
    exact fun actions moment hmoment => (allows_of_mem_moments hempty moment hmoment).2
  · exact fun actions text value start stretch => lookup?_eq_of_stays

/-- A cache with room for one entry. The build of one text drives out the other one and builds its
own text again: what that has put in is given. A build that fails keeps what it has put in. -/
theorem keeps_what_it_gives_nested :
    let policy : CachePolicy := .bounded 1 Nat.one_pos
    let earlier : List (Action String Nat) := [.build "a" [] (.ok 1)]
    let inner : List (Action String Nat) := [.build "b" [.clear] (.ok 2), .get "a"]
    let c := (runAll (.empty policy) earlier).2
    let left := (runAll c inner).2
    run c (.build "a" inner (.ok 3)) = (.built 1 (.ok 1) [], c) ∧
    run c (.build "b" inner (.ok 3)) =
      (.built 1 (.ok 2) [.built 1 (.ok 2) [.cleared], .found 1 none], left) ∧
    left.lookup? "b" = some 2 ∧
    run c (.build "b" inner (.error "late")) =
      (.built 1 (.error "late") [.built 1 (.ok 2) [.cleared], .found 1 none], left) ∧
    (∀ moment ∈ moments (.empty policy) (earlier ++ [.build "b" inner (.ok 3)]),
      moment.size ≤ 1) ∧
    (∀ moment ∈ [left, left], moment.lookup? "b" = some 2) := by
  intro policy earlier inner c left
  obtain ⟨hhit, -, -, hallows, -⟩ := keeps_what_it_gives policy earlier "a" inner (.ok 3)
  obtain ⟨-, hgives, hmiss, -, hkeeps⟩ := keeps_what_it_gives policy earlier "b" inner (.ok 3)
  obtain ⟨-, -, hfails, -, -⟩ := keeps_what_it_gives policy earlier "b" inner (.error "late")
  have hfound := (hmiss rfl).1 3 2 rfl rfl
  refine ⟨hhit 1 rfl, hfound, hgives _ 2 _ _ hfound, (hfails rfl).2 "late" rfl,
    hallows (earlier ++ [.build "b" inner (.ok 3)]), ?_⟩
  exact hkeeps (earlier ++ [.build "b" inner (.ok 3)]) "b" 2 left [left, left]
    ⟨(moments (.empty policy) (earlier ++ [.build "b" inner (.ok 3)])).take 6, [], rfl⟩ rfl
    (by decide)

end TreeQuery.Cache
