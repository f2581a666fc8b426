import TreeQuery.Proofs.Expr.Moved
import TreeQuery.Proofs.Expr.Ranges

/-!
White space outside the tokens is free. A token cannot tell whether blanks follow it at once or
only later, so blanks that are put in front of tokens or behind the last one leave all tokens as
they are, and with them what is parsed.
-/
namespace TreeQuery.Expr

open TreeQuery.Text

/-! ## Blanks are no parts of tokens -/

theorem isBlank_of_isNameChar {c : Char} (h : isNameChar c = true) : isBlank c = false := by
  by_cases hlow : c.toNat < 128
  · have hascii : ∀ code < 128, isNameChar (Char.ofNat code) = true →
        isBlank (Char.ofNat code) = false := by decide +kernel
    exact @of_ascii (fun c => isNameChar c = true → isBlank c = false) hascii c hlow h
  · have hne : ∀ d, d.toNat < 128 → c ≠ d := fun d hd heq => hlow (heq ▸ hd)
    simp only [isNameChar, isAlphanumeric, isAlphabetic, isNumeric, if_neg hlow, Bool.or_eq_true,
      beq_iff_eq, hne '_' (by decide), hne '-' (by decide), hne '.' (by decide), or_false] at h
    rw [isBlank, if_neg hlow]
    rcases h with h | h
    · exact inRanges_of_disjoint (by decide +kernel) h
    · exact inRanges_of_disjoint (by decide +kernel) h

/-- No blank is in a class of characters none of which is a blank. -/
theorem eq_false_of_isBlank {p : Char → Bool} (hp : ∀ c, p c = true → isBlank c = false) {c : Char}
    (h : isBlank c = true) : p c = false :=
  Bool.eq_false_iff.mpr fun hc => Bool.false_ne_true ((hp c hc).symm.trans h)

theorem isBlank_of_point {c : Char} (h : (c == '.') = true) : isBlank c = false :=
  beq_iff_eq.mp h ▸ rfl

/-- A run of blanks. -/
abbrev Blanks (cs : List Char) : Prop := ∀ c ∈ cs, isBlank c = true

/-- A text starts with a blank, or there is none. -/
abbrev Parts (rest : List Char) : Prop := Stops (!isBlank ·) rest

section
variable {rest rest' : List Char}

theorem Parts.stops (h : Parts rest) {p : Char → Bool} (hp : ∀ c, p c = true → isBlank c = false) :
    Stops p rest :=
  fun c hc => eq_false_of_isBlank hp (by simpa using h c hc)

theorem Parts.pairAt? (h : Parts rest) (c : Char) : pairAt? c rest = none := by
  cases rest with
  | nil => rfl
  | cons d rest =>
      have hpairs : ∀ entry ∈ pairs, isBlank entry.1.2 = false := by decide
      have hd : isBlank d = true := by simpa using h d rfl
      rw [Expr.pairAt?, List.lookup_eq_none_iff]
      intro entry hentry
      rw [bne_iff_ne]
      intro heq
      exact Bool.false_ne_true ((hpairs entry hentry).symm.trans (heq ▸ hd))

/-! ## What a token sees behind it -/

/-- The text behind a token changes so that the token cannot tell: blanks or the end come first
now, or the text starts as before. -/
structure Unnoticed (rest rest' : List Char) : Prop where
  head : Parts rest' ∨ ∃ c more more', rest = c :: more ∧ rest' = c :: more' ∧
    (c = ':' → more'.head? = more.head?) ∧
      (c = '.' → Stops (· == '.') more' → Stops (· == '.') more)
  word : ∀ text, wordKind text rest' = wordKind text rest

theorem localPartAt?_of_head? {more more' : List Char} (h : more'.head? = more.head?)
    (hnone : localPartAt? (':' :: more) = none) : localPartAt? (':' :: more') = none := by
  cases more with
  | nil =>
      obtain rfl := List.head?_eq_none_iff.mp h
      rfl
  | cons c more =>
      obtain ⟨more', rfl⟩ := List.head?_eq_some_iff.mp h
      by_cases hc : c = '*'
      · subst hc
        cases hnone
      · have hstart : isNameStart c = false := by
          by_contra hstart
          rw [Bool.not_eq_false] at hstart
          simp [localPartAt?, hc, startsName, hstart] at hnone
        simp [localPartAt?, hc, startsName, hstart]

variable (h : Unnoticed rest rest')
include h

theorem Unnoticed.stops {p : Char → Bool} (hp : ∀ c, p c = true → isBlank c = false)
    (hrest : Stops p rest) : Stops p rest' := by
  rcases h.head with hparts | ⟨c, more, more', rfl, rfl, _⟩
  · exact hparts.stops hp
  · exact stops_cons (hrest c rfl)

theorem Unnoticed.pairAt? {c : Char} (hrest : pairAt? c rest = none) : pairAt? c rest' = none := by
  rcases h.head with hparts | ⟨c, more, more', rfl, rfl, _⟩
  · exact hparts.pairAt? _
  · exact hrest

theorem Unnoticed.localPartAt? (hrest : localPartAt? rest = none) : localPartAt? rest' = none := by
  refine Option.eq_none_iff_forall_ne_some.mpr fun localPart hlocal => ?_
  obtain ⟨more, hmore, _⟩ := endsTest_of_localPartAt? hlocal
  rcases h.head with hparts | ⟨c, more, more', rfl, rfl, hcolon, _⟩
  · subst hmore
    exact absurd (hparts ':' rfl) (by decide)
  · obtain ⟨rfl, _⟩ := List.cons.inj hmore
    exact absurd ((localPartAt?_of_head? (hcolon rfl) hrest).symm.trans hlocal) nofun

theorem Unnoticed.fractionAt? (hrest : fractionAt? rest = none) : fractionAt? rest' = none := by
  refine Option.eq_none_iff_forall_ne_some.mpr fun fraction hfraction => ?_
  obtain ⟨more, hmore, hpoint, _⟩ := fractionAt?_eq_some hfraction
  rcases h.head with hparts | ⟨c, more, more', rfl, rfl, _, hdot⟩
  · subst hmore
    exact absurd (hparts '.' rfl) (by decide)
  · obtain ⟨rfl, rfl⟩ := List.cons.inj hmore
    exact absurd ((fractionAt?_point (hdot rfl hpoint)).symm.trans hrest) nofun

theorem Unnoticed.endsTest {localPart : String} (hlocal : EndsTest localPart rest) :
    EndsTest localPart rest' :=
  hlocal.imp_right fun ⟨hname, hrest⟩ => ⟨hname, h.stops (fun _ => isBlank_of_isNameChar) hrest⟩

/-- A token stands in front of a text that it cannot tell from the one behind it. -/
theorem Unnoticed.stands {operatorAllowed : Bool} {text : List Char} {kind : TokenKind}
    (hstands : Stands operatorAllowed text rest kind) : Stands operatorAllowed text rest' kind := by
  have hname := @Unnoticed.stops rest rest' h isNameChar fun _ => isBlank_of_isNameChar
  have hdigit := @Unnoticed.stops rest rest' h Char.isDigit fun _ => isBlank_of_isDigit
  have hdot := @Unnoticed.stops rest rest' h (· == '.') fun _ => isBlank_of_point
  cases hstands with
  | pair hkind => exact .pair hkind
  | single hkind hpair hpoint =>
      exact .single hkind (h.pairAt? hpair) fun hc => hdigit (hpoint hc)
  | star hstar => exact .star (hstar.imp_right h.localPartAt?)
  | anyPrefixed hallowed hlocal => exact .anyPrefixed hallowed (h.endsTest hlocal)
  | reference hisName hrest => exact .reference hisName (hname hrest)
  | string hquote hout => exact .string hquote hout
  | whole hne hdigits hrest hpoint =>
      exact .whole hne hdigits (hdigit hrest) (h.fractionAt? hpoint)
  | decimal hne hwhole hfraction hrest hpoint =>
      exact .decimal hne hwhole hfraction (hdigit hrest) fun hnil => hdot (hpoint hnil)
  | operator hisName hkind hrest => exact .operator hisName hkind (hname hrest)
  | prefixed hpfx hkind hlocal => exact .prefixed hpfx hkind (h.endsTest hlocal)
  | word hisName hkind hrest hlocal =>
      rw [← h.word]
      exact .word hisName hkind (hname hrest) (h.localPartAt? hlocal)

end

/-! ## The token in front of the rest -/

section
variable {operatorAllowed : Bool} {text rest : List Char} {kind : TokenKind}

/-- A text starts with two characters that are known, or with one that can be told from all
tokens it is the start of. -/
inductive Leads (rest : List Char) : List Char → Prop where
  | two (c d : Char) (more : List Char) : Leads rest (c :: d :: more)
  | one {c : Char} (hcolon : c ≠ ':') (hpoint : c = '.' → Stops (· == '.') rest) : Leads rest [c]

theorem leads_cons {c : Char} (hcolon : c ≠ ':') (hpoint : c ≠ '.') (more : List Char) :
    Leads rest (c :: more) := by
  cases more with
  | nil => exact .one hcolon fun hc => absurd hc hpoint
  | cons d more => exact .two c d more

theorem leads_digits {digits : List Char} (hne : digits ≠ []) (h : ∀ c ∈ digits, c.isDigit = true)
    (more : List Char) : Leads rest (digits ++ more) := by
  obtain ⟨c, digits, rfl⟩ := List.exists_cons_of_ne_nil hne
  have hc := h c List.mem_cons_self
  refine leads_cons ?_ ?_ _
  · rintro rfl
    cases hc
  · rintro rfl
    cases hc

theorem IsName.leads {name : String} (h : IsName name) (more : List Char) :
    Leads rest (name.toList ++ more) := by
  obtain ⟨c, tail, hname, hc⟩ := h.cons
  rw [hname]
  exact leads_cons (ne_of_isNameStart hc rfl) (ne_of_isNameStart hc rfl) _

theorem Stands.leads (h : Stands operatorAllowed text rest kind) : Leads rest text := by
  cases h with
  | pair => exact .two _ _ _
  | @single c _ _ h hpair =>
      have hsingles : ∀ entry ∈ singles, entry.1 ≠ ':' := by decide
      refine .one (hsingles _ (mem_of_lookup h)) ?_
      rintro rfl
      cases rest with
      | nil => simp [Stops]
      | cons d rest =>
          refine stops_cons (beq_eq_false_iff_ne.mpr ?_)
          rintro rfl
          cases hpair
  | star => exact leads_cons (by decide) (by decide) _
  | anyPrefixed => exact .two _ _ _
  | reference => exact leads_cons (by decide) (by decide) _
  | string hquote => rcases hquote with rfl | rfl <;> exact leads_cons (by decide) (by decide) _
  | whole hne h => simpa using @leads_digits rest text hne h []
  | @decimal whole fraction _ hne hwhole =>
      cases whole with
      | nil =>
          obtain ⟨d, ds, rfl⟩ := List.exists_cons_of_ne_nil (hne.resolve_left (not_not_intro rfl))
          exact .two _ _ _
      | cons c more => exact leads_digits (List.cons_ne_nil c more) hwhole _
  | operator h => simpa using @IsName.leads rest _ h []
  | prefixed h => exact h.leads _
  | word h => simpa using @IsName.leads rest _ h []

theorem wordKind_blanks {bs : List Char} (h : Blanks bs) (word : String) (cs : List Char) :
    wordKind word (bs ++ cs) = wordKind word cs := by
  rw [wordKind, wordKind, List.dropWhile_append_of_pos h]

/-- What a word is shows in the character behind it, and behind a colon in the next one too. -/
theorem wordKind_cons_congr {c : Char} {more more' : List Char} (hblank : ¬isBlank c = true)
    (h : c = ':' → more.head? = more'.head?) (word : String) :
    wordKind word (c :: more) = wordKind word (c :: more') := by
  simp only [wordKind, List.dropWhile_cons_of_neg hblank]
  split
  · rename_i heq
    obtain ⟨rfl, rfl⟩ := List.cons.inj heq
    obtain ⟨tail, rfl⟩ := List.head?_eq_some_iff.mp (h rfl).symm
    rfl
  · rename_i heq
    obtain ⟨rfl, rfl⟩ := List.cons.inj heq
    rfl
  · rename_i hcolon hparen
    split
    · rename_i heq
      obtain ⟨rfl, rfl⟩ := List.cons.inj heq
      obtain ⟨tail, rfl⟩ := List.head?_eq_some_iff.mp (h rfl)
      exact absurd rfl (hcolon _)
    · rename_i heq
      obtain ⟨rfl, rfl⟩ := List.cons.inj heq
      exact absurd rfl (hparen _)
    · rfl

/-- What a word is can be told by what leads the text behind it. -/
theorem Leads.wordKind_eq {rest' : List Char} (h : Leads rest text) (hblank : Stops isBlank text)
    (word : String) : wordKind word (text ++ rest') = wordKind word (text ++ rest) := by
  cases h with
  | two c d more =>
      have hc : ¬isBlank c = true := by simpa using hblank c rfl
      have hhead : (d :: (more ++ rest')).head? = (d :: (more ++ rest)).head? := rfl
      exact wordKind_cons_congr hc (fun _ => hhead) word
  | @one c hcolon =>
      have hc : ¬isBlank c = true := by simpa using hblank c rfl
      exact wordKind_cons_congr hc (fun h => absurd h hcolon) word

/-- More blanks in front of a token, and a change behind it, are not noticed in front of both. -/
theorem Stands.unnoticed {rest' bs bs' : List Char} (h : Stands operatorAllowed text rest kind)
    (hbs : Blanks bs) (hbs' : Blanks bs') (hne : bs' = [] → bs = []) :
    Unnoticed (bs ++ (text ++ rest)) (bs' ++ (text ++ rest')) := by
  obtain ⟨c, more, rfl, hblank, _⟩ := h.cuts
  refine ⟨?_, fun word => ?_⟩
  · cases bs' with
    | cons b bs' =>
        exact .inl (stops_cons (by simpa using hbs' b List.mem_cons_self))
    | nil =>
        obtain rfl := hne rfl
        refine .inr ⟨c, more ++ rest, more ++ rest', rfl, rfl, ?_⟩
        cases h.leads with
        | two c d more => exact ⟨fun _ => rfl, fun _ hpoint => stops_cons (hpoint d rfl)⟩
        | one hcolon hpoint => exact ⟨fun hc => absurd hc hcolon, fun hc _ => hpoint hc⟩
  · rw [wordKind_blanks hbs, wordKind_blanks hbs']
    exact h.leads.wordKind_eq (stops_cons hblank) word

end

/-! ## Blanks put in -/

/-- A text with more in front of each character and at the end, told by the offsets. -/
def inserted (added : Nat → List Char) (offset : Nat) : List Char → List Char
  | [] => added offset
  | c :: cs => added offset ++ c :: inserted added (offset + 1) cs

theorem Lexes.blanks {operatorAllowed : Bool} {bs cs : List Char} {kinds : List TokenKind}
    (hbs : Blanks bs) (h : Lexes operatorAllowed cs kinds) :
    Lexes operatorAllowed (bs ++ cs) kinds := by
  induction bs with
  | nil => exact h
  | cons b bs ih =>
      obtain ⟨hb, hbs⟩ := List.forall_mem_cons.mp hbs
      exact .blank hb (ih hbs)

section
variable {added : Nat → List Char} {cs text rest : List Char} {offset : Nat}

/-- In front of what stands behind blanks there are blanks again, no fewer. -/
theorem inserted_blanks (hadded : ∀ i, Blanks (added i)) {bs : List Char} (hbs : Blanks bs) :
    ∃ bs', Blanks bs' ∧ (bs' = [] → bs = []) ∧
      inserted added offset (bs ++ rest) = bs' ++ inserted added (offset + bs.length) rest := by
  induction bs generalizing offset with
  | nil => exact ⟨[], List.forall_mem_nil _, fun _ => rfl, rfl⟩
  | cons b bs ih =>
      obtain ⟨hb, hbs⟩ := List.forall_mem_cons.mp hbs
      obtain ⟨bs', hbs', _, hins⟩ := @ih (offset + 1) hbs
      refine ⟨added offset ++ b :: bs', ?_, by simp, ?_⟩
      · exact List.forall_mem_append.mpr ⟨hadded offset, List.forall_mem_cons.mpr ⟨hb, hbs'⟩⟩
      · rw [List.cons_append, inserted, hins]
        simp [Nat.add_assoc, Nat.add_comm 1]

/-- Nothing is put in between the characters of a token. -/
theorem inserted_token (hne : text ≠ [])
    (hnone : ∀ i, offset < i → i < offset + text.length → added i = []) :
    inserted added offset (text ++ rest) =
      added offset ++ (text ++ inserted added (offset + text.length) rest) := by
  induction text generalizing offset with
  | nil => exact absurd rfl hne
  | cons c text ih =>
      rw [List.cons_append, inserted]
      cases text with
      | nil => rfl
      | cons d text =>
          simp only [List.length_cons] at hnone
          rw [@ih (offset + 1) (List.cons_ne_nil _ _) fun i hi hlt => hnone i (by omega)
              (by simp only [List.length_cons] at hlt; omega),
            hnone (offset + 1) (by omega) (by omega)]
          simp [Nat.add_assoc, Nat.add_comm 1]

/-- Blanks outside the ranges of the tokens change neither the tokens nor what stands in front. -/
theorem Covers.lexes_inserted {operatorAllowed : Bool} {tokens : List Token} {ranges : List Range}
    (h : Covers cs cs.length operatorAllowed offset tokens ranges)
    (hadded : ∀ i, Blanks (added i))
    (hout : ∀ i, ∀ r ∈ ranges, r.start < i → i < r.stop → added i = []) :
    Lexes operatorAllowed (inserted added offset (cs.drop offset)) (tokens.map (·.kind)) ∧
      Unnoticed (cs.drop offset) (inserted added offset (cs.drop offset)) := by
  generalize hupto : cs.length = upto at h
  induction h with
  | @nil operatorAllowed offset hle hblank =>
      have hend : Range.of ⟨offset, upto⟩ cs = cs.drop offset := by
        rw [Range.of, ← hupto, ← List.length_drop, List.take_length]
      rw [hend] at hblank
      obtain ⟨bs', hbs', _, hins⟩ := @inserted_blanks added [] offset hadded _ hblank
      rw [List.append_nil] at hins
      have hall : Blanks (inserted added offset (cs.drop offset)) := by
        rw [hins]
        exact List.forall_mem_append.mpr ⟨hbs', hadded _⟩
      have hnil := List.append_nil (inserted added offset (cs.drop offset))
      refine ⟨hnil ▸ Lexes.blanks hall .nil, .inl fun c hc => ?_, fun word => ?_⟩
      · simpa using hall c (List.mem_of_mem_head? hc)
      · rw [← hnil, wordKind_blanks hall, ← List.append_nil (cs.drop offset),
          wordKind_blanks hblank]
  | @cons operatorAllowed offset token tokens r ranges hle hblank hlt hcuts hplace htail ih =>
      obtain ⟨hfirst, hmore⟩ := forall_and.mp fun i => List.forall_mem_cons.mp (hout i)
      obtain ⟨hlexes, hunnoticed⟩ := ih hmore
      have hstands := cuts_iff_stands.mp hcuts
      have hlength := htail.offset_le
      have hgap : offset + (Range.of ⟨offset, r.start⟩ cs).length = r.start := by
        rw [Range.length_of (Nat.le_trans (Nat.le_of_lt hlt) (hupto ▸ hlength)),
          Nat.add_sub_cancel' hle]
      have hwidth : r.start + (r.of cs).length = r.stop := by
        rw [Range.length_of (hupto ▸ hlength), Nat.add_sub_cancel' (Nat.le_of_lt hlt)]
      have hdrop : cs.drop offset =
          Range.of ⟨offset, r.start⟩ cs ++ (r.of cs ++ cs.drop r.stop) := by
        rw [Range.of_append_drop (Nat.le_of_lt hlt),
          Range.of_append_drop (r := ⟨offset, r.start⟩) hle]
      have htoken := @inserted_token added (r.of cs) (cs.drop r.stop) r.start
        (List.ne_nil_of_length_pos hcuts.length_pos) (hwidth.symm ▸ hfirst)
      obtain ⟨bs', hbs', hne, hins⟩ :=
        @inserted_blanks added (r.of cs ++ cs.drop r.stop) offset hadded _ hblank
      rw [hwidth] at htoken
      rw [hgap, htoken, ← List.append_assoc bs'] at hins
      have hfront : Blanks (bs' ++ added r.start) :=
        List.forall_mem_append.mpr ⟨hbs', hadded _⟩
      rw [hdrop, hins]
      refine ⟨.blanks hfront (.token (hunnoticed.stands hstands).cuts hlexes),
        hstands.unnoticed hblank hfront fun hnil => hne (List.append_eq_nil_iff.mp hnil).1⟩

end

/-! ## Whole texts -/

theorem forall₂_of_kinds {tokens tokens' : List Token}
    (h : tokens.map (·.kind) = tokens'.map (·.kind)) :
    List.Forall₂ (fun t t' => t.kind = t'.kind ∧ True) tokens tokens' := by
  induction tokens generalizing tokens' with
  | nil =>
      obtain rfl := List.map_eq_nil_iff.mp h.symm
      exact .nil
  | cons t tokens ih =>
      obtain ⟨t', tokens', rfl, hkind, hmore⟩ := List.map_eq_cons_iff.mp h.symm
      exact .cons ⟨hkind.symm, trivial⟩ (ih hmore.symm)

/-- Blanks that are put outside the ranges of the tokens of a text, any number of them anywhere,
leave the tokens of the text as they are. What is parsed is the same, and an error is the same but
for its place. -/
theorem respaced {text : String} {place : Place} (h : (Tokens.ofText text).stop = .ok place) :
    ∃ ranges, Covered text.toList text.toList.length (Tokens.ofText text).ahead ranges ∧
      ∀ added : Nat → List Char, (∀ i, Blanks (added i)) →
        (∀ i, ∀ r ∈ ranges, r.start < i → i < r.stop → added i = []) →
        ∀ text' : String, text'.toList = inserted added 0 text.toList →
          (Tokens.ofText text').kinds = (Tokens.ofText text).kinds ∧
          (∃ place', (Tokens.ofText text').stop = .ok place') ∧
          Agree Eq (Displaced fun _ _ => True) (parse text) (parse text') := by
  obtain ⟨ranges, upto, hcovers, hstop⟩ := exists_covers_ofText text
  rw [h] at hstop
  cases hstop with
  | finish =>
      refine ⟨ranges, hcovers.covered, fun added hadded hout text' htext' => ?_⟩
      have hlexes := (hcovers.lexes_inserted hadded hout).1
      rw [List.drop_zero, ← htext'] at hlexes
      obtain ⟨hkinds, place', hstop'⟩ := Tokens.holds_scan hlexes (Nat.le_refl _) Place.start
      refine ⟨hkinds, ⟨place', hstop'⟩, agree_parse (forall₂_of_kinds hkinds.symm) ?_⟩
      rw [h]
      exact hstop' ▸ .ok trivial

/-- Blanks in front of the first token, behind the last one, and between two tokens that stand close
together. -/
theorem respaced_around :
    (Tokens.ofText "//a[2.5 - b]").stop = .ok ⟨1, 13⟩ ∧
      Agree Eq (Displaced fun _ _ => True) (parse "//a[2.5 - b]")
        (parse " \n//a\t[2.5 - b]\t") := by
  have hstop : (Tokens.ofText "//a[2.5 - b]").stop = .ok ⟨1, 13⟩ := by decide +kernel
  obtain ⟨ranges, hcovered, h⟩ := respaced hstop
  have hwithin : ∀ r ∈ ranges, r.stop ≤ 12 := hcovered.within
  obtain ⟨bracket, hmem, hbracket⟩ : ∃ r ∈ ranges, r.start = 3 := by
    have htoken : (⟨.leftBracket, ⟨1, 4⟩⟩ : Token) ∈ (Tokens.ofText "//a[2.5 - b]").ahead := by
      decide +kernel
    obtain ⟨r, hr, hplace⟩ := hcovered.exists_range htoken
    have hat : ∀ i < 12, ⟨1, 4⟩ = placeAt "//a[2.5 - b]".toList i → i = 3 := by decide +kernel
    exact ⟨r, hr, hat _ (Nat.lt_of_lt_of_le (hcovered.start_lt r hr) (hwithin r hr)) hplace⟩
  let added (i : Nat) : List Char :=
    if i = 0 then [' ', '\n'] else if i = 3 ∨ i = 12 then ['\t'] else []
  refine ⟨hstop, (h added (fun i => ?_) (fun i r hr hlt hlt' => ?_) _ rfl).2.2⟩
  · unfold added
    split
    · exact List.forall_mem_cons.mpr ⟨rfl, List.forall_mem_singleton.mpr rfl⟩
    · split
      · exact List.forall_mem_singleton.mpr rfl
      · exact List.forall_mem_nil _
  · have hle := hwithin r hr
    have hout := hcovered.start_outside hr hmem
    exact (if_neg (by omega)).trans (if_neg (by omega))

end TreeQuery.Expr
