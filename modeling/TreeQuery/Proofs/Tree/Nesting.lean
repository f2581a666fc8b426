import Mathlib.Data.List.Infix
import Mathlib.Data.List.Nodup
import Mathlib.Data.List.TakeWhile
import TreeQuery.Tree.Scope

/-!
Scopes that are entered and left. Declarations are only marked with the depth at which they were
made. They lie with the deeper ones on top, so leaving a scope takes off those that were made since
it was entered, and brings back the scope around it as it was. The bindings in force are those
that the prefixes resolve to.
-/
namespace TreeQuery.Scope

/-- What can be done to a scope. -/
inductive Action where
  | push
  | declare (pfx uri : String)
  | declareDefault (uri : String)
  | pop
deriving DecidableEq

/-- The scope after an action. -/
def after (s : Scope) : Action → Scope
  | .push => s.push
  | .declare pfx uri => s.declare pfx uri
  | .declareDefault uri => s.declareDefault uri
  | .pop => s.pop

/-- The scope after actions one after the other. -/
def afterAll (s : Scope) (actions : List Action) : Scope := actions.foldl after s

/-- Every scope that the actions leave was entered by them, and they leave every one they enter. -/
structure Balanced (actions : List Action) : Prop where
  entered : ∀ past ∈ actions.inits, past.count .pop ≤ past.count .push
  left : actions.count .pop = actions.count .push

instance (actions : List Action) : Decidable (Balanced actions) :=
  decidable_of_iff ((∀ past ∈ actions.inits, past.count .pop ≤ past.count .push) ∧
    actions.count .pop = actions.count .push) ⟨fun h => ⟨h.1, h.2⟩, fun h => ⟨h.1, h.2⟩⟩

/-- No scope is entered at the largest depth, after which the depth would begin again at zero. -/
def NeverFull (s : Scope) : List Action → Prop
  | [] => True
  | action :: actions => (action = .push → s.depth < 65535) ∧ (s.after action).NeverFull actions

instance decidableNeverFull (s : Scope) : (actions : List Action) → Decidable (s.NeverFull actions)
  | [] => .isTrue trivial
  | action :: actions => @instDecidableAnd _ _ _ (decidableNeverFull (s.after action) actions)

variable {s t : Scope} {level : Nat} {action : Action} {actions : List Action} {pfx uri : String}

/-! ## Depths -/

theorem toNat_depth_push (h : s.depth < 65535) : s.push.depth.toNat = s.depth.toNat + 1 := by
  have hlt : s.depth.toNat < 65535 := UInt16.lt_iff_toNat_lt.mp h
  rw [push, UInt16.toNat_add]
  exact Nat.mod_eq_of_lt (Nat.succ_lt_succ hlt)

theorem toNat_depth_pop (s : Scope) : s.pop.depth.toNat = s.depth.toNat - 1 := by
  rw [pop]
  by_cases hzero : s.depth = 0
  · rw [if_pos hzero, hzero]
    rfl
  · have hone : (1 : UInt16) ≤ s.depth := by
      rw [UInt16.le_iff_toNat_le]
      exact Nat.one_le_iff_ne_zero.mpr fun h => hzero (UInt16.toNat_inj.mp h)
    rw [if_neg hzero, UInt16.toNat_sub_of_le _ _ hone]
    rfl

@[simp] theorem depth_declare (s : Scope) (pfx uri : String) :
    (s.declare pfx uri).depth = s.depth := by
  rw [declare]
  split <;> rfl

/-- Deeper declarations lie on top, and none is deeper than the scope. -/
structure Stacked (s : Scope) : Prop where
  deeper_first : s.declarations.Pairwise fun d e => e.depth.toNat ≤ d.depth.toNat
  depth_le : ∀ d ∈ s.declarations, d.depth.toNat ≤ s.depth.toNat

theorem stacked_initial : initial.Stacked := by
  constructor <;> decide

theorem Stacked.push (h : s.Stacked) (hroom : s.depth < 65535) : s.push.Stacked := by
  refine ⟨h.deeper_first, fun d hd => ?_⟩
  rw [toNat_depth_push hroom]
  exact Nat.le_succ_of_le (h.depth_le d hd)

theorem Stacked.declare (h : s.Stacked) (pfx uri : String) : (s.declare pfx uri).Stacked := by
  rw [Scope.declare]
  split
  · exact h
  · refine ⟨List.pairwise_cons.mpr ⟨h.depth_le, h.deeper_first⟩, fun d hd => ?_⟩
    rcases List.mem_cons.mp hd with rfl | hd
    · exact Nat.le_refl _
    · exact h.depth_le d hd

/-- Where the deeper declarations lie on top, leaving takes off all that are deep enough. -/
theorem lt_of_mem_dropWhile {declarations : List Declaration} {depth : UInt16} {d : Declaration}
    (h : declarations.Pairwise fun d e => e.depth.toNat ≤ d.depth.toNat)
    (hd : d ∈ declarations.dropWhile (depth ≤ ·.depth)) : d.depth.toNat < depth.toNat := by
  induction declarations with
  | nil => cases hd
  | cons top declarations ih =>
      obtain ⟨htop, hrest⟩ := List.pairwise_cons.mp h
      by_cases hdeep : depth ≤ top.depth
      · rw [List.dropWhile_cons_of_pos (by simpa using hdeep)] at hd
        exact ih hrest hd
      · rw [List.dropWhile_cons_of_neg (by simpa using hdeep)] at hd
        have hlt : top.depth.toNat < depth.toNat := by
          simpa [UInt16.le_iff_toNat_le] using hdeep
        rcases List.mem_cons.mp hd with rfl | hd
        · exact hlt
        · exact Nat.lt_of_le_of_lt (htop d hd) hlt

theorem Stacked.pop (h : s.Stacked) : s.pop.Stacked := by
  refine ⟨h.deeper_first.sublist (List.dropWhile_sublist _), fun d hd => ?_⟩
  rw [toNat_depth_pop]
  exact Nat.le_sub_one_of_lt (lt_of_mem_dropWhile h.deeper_first hd)

theorem Stacked.after (h : s.Stacked) (hroom : action = .push → s.depth < 65535) :
    (s.after action).Stacked := by
  cases action with
  | push => exact h.push (hroom rfl)
  | declare pfx uri => exact h.declare pfx uri
  | declareDefault uri => exact h.declare "" uri
  | pop => exact h.pop

theorem Stacked.afterAll (h : s.Stacked) (hroom : s.NeverFull actions) :
    (s.afterAll actions).Stacked := by
  induction actions generalizing s with
  | nil => exact h
  | cons action actions ih => exact ih (h.after hroom.1) hroom.2

/-! ## Scopes above a scope -/

/-- Inside a scope that was entered from `s`, in a number of further scopes: what was declared
since then is deeper than `s` and lies on top of the declarations of `s`. -/
structure Above (s : Scope) (level : Nat) (t : Scope) : Prop where
  depth : t.depth.toNat = s.depth.toNat + 1 + level
  declarations : ∃ inner, t.declarations = inner ++ s.declarations ∧
    ∀ d ∈ inner, s.depth.toNat < d.depth.toNat

theorem above_push (hroom : s.depth < 65535) : s.Above 0 s.push :=
  ⟨toNat_depth_push hroom, [], rfl, by simp⟩

theorem Above.push (h : s.Above level t) (hroom : t.depth < 65535) :
    s.Above (level + 1) t.push := by
  refine ⟨?_, h.declarations⟩
  rw [toNat_depth_push hroom, h.depth]
  rfl

theorem Above.declare (h : s.Above level t) (pfx uri : String) :
    s.Above level (t.declare pfx uri) := by
  refine ⟨by rw [depth_declare, h.depth], ?_⟩
  obtain ⟨inner, hinner, hdeep⟩ := h.declarations
  rw [Scope.declare]
  split
  · exact ⟨inner, hinner, hdeep⟩
  · refine ⟨⟨pfx, uri, t.depth⟩ :: inner, by rw [hinner]; rfl, fun d hd => ?_⟩
    rcases List.mem_cons.mp hd with rfl | hd
    · rw [h.depth]
      omega
    · exact hdeep d hd

/-- To leave a scope above `s` takes off nothing that `s` has. -/
theorem Above.declarations_pop (hs : s.Stacked) (h : s.Above level t) {inner : List Declaration}
    (hinner : t.declarations = inner ++ s.declarations) :
    t.pop.declarations = inner.dropWhile (t.depth ≤ ·.depth) ++ s.declarations := by
  have hkept : s.declarations.dropWhile (t.depth ≤ ·.depth) = s.declarations := by
    cases hd : s.declarations with
    | nil => rfl
    | cons d ds =>
        refine List.dropWhile_cons_of_neg ?_
        have hle := hs.depth_le d (hd ▸ List.mem_cons_self)
        have hdepth := h.depth
        simp only [decide_eq_true_eq, UInt16.le_iff_toNat_le]
        omega
  rw [Scope.pop, hinner, List.dropWhile_append, hkept]
  split
  · rename_i hnone
    rw [List.isEmpty_iff.mp hnone, List.nil_append]
  · rfl

theorem Above.pop (hs : s.Stacked) (h : s.Above (level + 1) t) : s.Above level t.pop := by
  obtain ⟨inner, hinner, hdeep⟩ := h.declarations
  refine ⟨?_, _, h.declarations_pop hs hinner, fun d hd => hdeep d (List.dropWhile_subset _ hd)⟩
  rw [toNat_depth_pop, h.depth]
  rfl

/-- To leave the scope that was entered from `s` brings back `s`. -/
theorem Above.pop_eq (hs : s.Stacked) (h : s.Above 0 t) : t.pop = s := by
  obtain ⟨inner, hinner, hdeep⟩ := h.declarations
  have hnone : inner.dropWhile (t.depth ≤ ·.depth) = [] := by
    refine List.dropWhile_eq_nil_iff.mpr fun d hd => ?_
    have hlt := hdeep d hd
    have hdepth := h.depth
    simp only [decide_eq_true_eq, UInt16.le_iff_toNat_le]
    omega
  have hdeclarations : t.pop.declarations = s.declarations := by
    rw [h.declarations_pop hs hinner, hnone, List.nil_append]
  have hdepth : t.pop.depth = s.depth := by
    rw [← UInt16.toNat_inj, toNat_depth_pop, h.depth]
    rfl
  calc t.pop = ⟨t.pop.declarations, t.pop.depth⟩ := rfl
    _ = s := by rw [hdeclarations, hdepth]

/-- One action: above `s` it enters one scope more, or leaves one, or stays in its scope. -/
theorem Above.after (hs : s.Stacked) (h : s.Above level t)
    (hroom : action = .push → t.depth < 65535) {level' : Nat}
    (hlevel : level' + [action].count .pop = level + [action].count .push) :
    s.Above level' (t.after action) := by
  cases action with
  | push =>
      obtain rfl : level' = level + 1 := hlevel
      exact h.push (hroom rfl)
  | declare pfx uri =>
      obtain rfl : level' = level := hlevel
      exact h.declare pfx uri
  | declareDefault uri =>
      obtain rfl : level' = level := hlevel
      exact h.declare "" uri
  | pop =>
      obtain rfl : level = level' + 1 := hlevel.symm
      exact h.pop hs

/-- Actions that at no moment have left more scopes than were entered since `s` stay above `s`. -/
theorem Above.afterAll (hs : s.Stacked) (h : s.Above level t) (hroom : t.NeverFull actions)
    (hentered : ∀ past, past <+: actions → past.count .pop ≤ level + past.count .push) :
    ∃ level', level' + actions.count .pop = level + actions.count .push ∧
      s.Above level' (t.afterAll actions) := by
  induction actions generalizing t level with
  | nil => exact ⟨level, rfl, h⟩
  | cons action actions ih =>
      have hcons : ∀ a past, (action :: past).count a = [action].count a + past.count a := by
        intro a past
        rw [← List.singleton_append, List.count_append]
      have hfirst := hentered [action] (List.prefix_append [action] actions)
      obtain ⟨inside, hinside⟩ :
          ∃ inside, inside + [action].count .pop = level + [action].count .push :=
        ⟨_, Nat.sub_add_cancel hfirst⟩
      have hlater : ∀ past, past <+: actions → past.count .pop ≤ inside + past.count .push := by
        intro past hpast
        have hcount := hentered _ (List.cons_prefix_cons.mpr ⟨rfl, hpast⟩)
        rw [hcons .pop past, hcons .push past] at hcount
        omega
      obtain ⟨level', hcount, habove⟩ := ih (h.after hs hroom.1 hinside) hroom.2 hlater
      refine ⟨level', ?_, habove⟩
      rw [hcons .pop actions, hcons .push actions]
      omega

/-- What happens between entering a scope and leaving it leaves no trace. -/
theorem Stacked.pop_afterAll_push (h : s.Stacked) (hbalanced : Balanced actions)
    (hroom : s.NeverFull (.push :: actions)) : (s.push.afterAll actions).pop = s := by
  obtain ⟨level, hcount, habove⟩ := (above_push (hroom.1 rfl)).afterAll h hroom.2
    fun past hpast => by
      rw [Nat.zero_add]
      exact hbalanced.entered past ((List.mem_inits _ _).mpr hpast)
  obtain rfl : level = 0 := by
    rw [hbalanced.left] at hcount
    omega
  exact habove.pop_eq h

/-! ## Bindings in force -/

theorem mem_effective {later : List String} {declarations : List Declaration} {d : Declaration} :
    d ∈ effective later declarations ↔
      d.pfx ∉ later ∧ declarations.find? (·.pfx == d.pfx) = some d := by
  induction declarations generalizing later with
  | nil => simp [effective]
  | cons top declarations ih =>
      rw [effective]
      by_cases hlater : top.pfx ∈ later
      · rw [if_pos (by simpa using hlater), ih]
        refine and_congr_right fun hd => ?_
        have hne : top.pfx ≠ d.pfx := fun h => hd (h ▸ hlater)
        rw [List.find?_cons_of_neg (by simpa using hne)]
      · rw [if_neg (by simpa using hlater), List.mem_cons, ih, List.mem_cons, not_or]
        by_cases hpfx : top.pfx = d.pfx
        · rw [List.find?_cons_of_pos (by simpa using hpfx), Option.some.injEq]
          constructor
          · rintro (rfl | ⟨⟨hne, -⟩, -⟩)
            · exact ⟨hlater, rfl⟩
            · exact absurd hpfx.symm hne
          · rintro ⟨-, rfl⟩
            exact .inl rfl
        · rw [List.find?_cons_of_neg (by simpa using hpfx),
            or_iff_right (by rintro rfl; exact hpfx rfl), and_iff_right (Ne.symm hpfx)]

theorem nodup_effective (later : List String) (declarations : List Declaration) :
    ((effective later declarations).map (·.pfx)).Nodup := by
  induction declarations generalizing later with
  | nil => exact .nil
  | cons top declarations ih =>
      rw [effective]
      split
      · exact ih later
      · refine List.nodup_cons.mpr ⟨fun hmem => ?_, ih _⟩
        obtain ⟨d, hd, hpfx⟩ := List.mem_map.mp hmem
        exact (mem_effective.mp hd).1 (hpfx ▸ List.mem_cons_self)

theorem resolve?_eq_some_iff_find? : s.resolve? pfx = some uri ↔
    ∃ d, s.declarations.find? (·.pfx == pfx) = some d ∧ d.uri = uri ∧ uri ≠ "" := by
  rw [resolve?, Option.filter_eq_some_iff, Option.map_eq_some_iff, bne_iff_ne]
  constructor
  · rintro ⟨⟨d, hfind, huri⟩, hne⟩
    exact ⟨d, hfind, huri, hne⟩
  · rintro ⟨d, hfind, huri, hne⟩
    exact ⟨⟨d, hfind, huri⟩, hne⟩

theorem nodup_bindings (s : Scope) : (s.bindings.map (·.1)).Nodup := by
  rw [bindings, List.map_map, List.map_reverse, List.nodup_reverse]
  exact (nodup_effective [] s.declarations).sublist (List.filter_sublist.map _)

/-- The bindings in force are what the prefixes resolve to, but for the reserved prefixes. -/
theorem mem_bindings_iff_resolve? : (pfx, uri) ∈ s.bindings ↔
    isReserved pfx = false ∧ s.resolve? pfx = some uri := by
  rw [resolve?_eq_some_iff_find?, bindings, List.mem_map]
  simp only [List.mem_reverse, List.mem_filter, mem_effective, List.not_mem_nil, not_false_eq_true,
    true_and, Bool.and_eq_true, bne_iff_ne, Bool.not_eq_true', Prod.mk.injEq]
  constructor
  · rintro ⟨d, ⟨hfind, hne, hreserved⟩, rfl, rfl⟩
    exact ⟨hreserved, d, hfind, rfl, hne⟩
  · rintro ⟨hreserved, d, hfind, rfl, hne⟩
    obtain rfl : d.pfx = pfx := by simpa using List.find?_some hfind
    exact ⟨d, ⟨hfind, hne, hreserved⟩, rfl, rfl⟩

/-! ## Scopes in the course of actions -/

theorem isReserved_eq_false_iff : isReserved pfx = false ↔ pfx ≠ "xml" ∧ pfx ≠ "xmlns" := by
  rw [isReserved, Bool.or_eq_false_iff, beq_eq_false_iff_ne, beq_eq_false_iff_ne]

/-- Of a scope that any actions have led to: when no scope was entered at the largest depth, then to
enter it, to do anything balanced inside it and to leave it brings back the scope itself, its depth
and its declarations and so what every prefix resolves to. Its bindings name no prefix twice, and
they are the prefixes other than `xml` and `xmlns` that resolve to a URI, with that URI. -/
theorem left_as_entered (before : List Action) :
    let s := initial.afterAll before
    (initial.NeverFull before → ∀ actions, Balanced actions → s.NeverFull (.push :: actions) →
      (s.push.afterAll actions).pop = s) ∧
    (s.bindings.map (·.1)).Nodup ∧
    ∀ pfx uri, (pfx, uri) ∈ s.bindings ↔
      (pfx ≠ "xml" ∧ pfx ≠ "xmlns") ∧ s.resolve? pfx = some uri := by
  intro s
  refine ⟨fun hbefore actions hbalanced hroom => ?_, nodup_bindings s, fun pfx uri => ?_⟩
  · exact (stacked_initial.afterAll hbefore).pop_afterAll_push hbalanced hroom
  · rw [mem_bindings_iff_resolve?, isReserved_eq_false_iff]

/-- More scopes were left than entered before, and inside the scope a prefix is taken back and the
default namespace changes twice. -/
theorem left_as_entered_shadowed :
    let before : List Action := [.pop, .push, .declare "x" "urn:a", .declareDefault "urn:b"]
    let actions : List Action := [.declare "x" "", .push, .declareDefault "urn:c",
      .declare "xml" "urn:d", .pop, .declareDefault ""]
    let s := initial.afterAll before
    initial.NeverFull before ∧ Balanced actions ∧ s.NeverFull (.push :: actions) ∧
      (s.push.afterAll actions).bindings = [] ∧ (s.push.afterAll actions).pop = s ∧
      s.bindings = [("x", "urn:a"), ("", "urn:b")] ∧ s.resolve? "x" = some "urn:a" := by
  intro before actions s
  have hbefore : initial.NeverFull before := by decide
  have hbalanced : Balanced actions := by decide
  have hroom : s.NeverFull (.push :: actions) := by decide
  obtain ⟨hleft, -, hbindings⟩ := left_as_entered before
  exact ⟨hbefore, hbalanced, hroom, by decide, hleft hbefore actions hbalanced hroom, by decide,
    ((hbindings "x" "urn:a").mp (by decide)).2⟩

end TreeQuery.Scope
