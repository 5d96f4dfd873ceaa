import SourceLayout.Proofs.Spacing.Joined

/-!
# A closing bracket before an assignment

The operator rule parts an angle bracket from the sign of an assignment after it, but the rule that
puts compound assignments together again takes the two for a comparison. No rule after it parts them:
each of them takes blanks away or writes them next to other signs only.
-/

namespace SourceLayout.Spacing

open Text (solid solid_append solid_blanks solid_cons)

/-- A bracket directly before the sign of an assignment, after a text with these characters. -/
def Fused (front t : Text) : Prop :=
  ∃ u v, t = u ++ '>' :: '=' :: v ∧ solid u = front

/-- Two neighbours among the kept elements have nothing but dropped ones between them. -/
theorem exists_of_filter {α : Type} {p : α → Bool} {l front back : List α} {c d : α}
    (hfilter : l.filter p = front ++ c :: d :: back) :
    ∃ u gap v, l = u ++ c :: (gap ++ d :: v) ∧ (∀ e ∈ gap, p e = false) ∧ u.filter p = front ∧
      v.filter p = back := by
  obtain ⟨u, rest, rfl, hfront, hrest⟩ := List.filter_eq_append_iff.mp hfilter
  obtain ⟨gap, rest, rfl, hgap, _, hrest⟩ := List.filter_eq_cons_iff.mp hrest
  obtain ⟨gap', v, rfl, hgap', _, hback⟩ := List.filter_eq_cons_iff.mp hrest
  refine ⟨u ++ gap, gap', v, by simp, fun e he => by simpa using hgap' e he, ?_, hback⟩
  rw [List.filter_append, List.filter_eq_nil_iff.mpr hgap, List.append_nil, hfront]

/-- Two neighbours among the characters that are no blanks have nothing but blanks between them. -/
theorem exists_of_solid {t front back : Text} {c d : Char}
    (hsolid : solid t = front ++ c :: d :: back) :
    ∃ u gap v, t = u ++ c :: (gap ++ d :: v) ∧ gap.all isBlank = true ∧ solid u = front ∧
      solid v = back := by
  obtain ⟨u, gap, v, rfl, hgap, hfront, hback⟩ := exists_of_filter hsolid
  refine ⟨u, gap, v, rfl, List.all_eq_true.mpr fun c hc => ?_, hfront, hback⟩
  simpa using hgap c hc

namespace Fused

variable {front t : Text}

/-- The two signs after these characters are the ones that were meant. -/
theorem gap_eq_nil {u gap v : Text} (h : Fused front (u ++ '>' :: (gap ++ '=' :: v)))
    (hgap : gap.all isBlank = true) (hu : solid u = front) : gap = [] := by
  obtain ⟨u', v', hsame, hu'⟩ := h
  have hbracket : ∀ t, headIs isBlank ('>' :: t) = false := fun _ => (by decide : isBlank '>' = false)
  have hrest := eq_of_solid hsame (hu.trans hu'.symm) (hbracket _) (hbracket _)
  cases gap with
  | nil => rfl
  | cons b bs =>
      have hb : b = '=' := (List.cons.inj (List.cons.inj hrest).2).1
      subst hb
      cases hgap

/-- Rules that keep the words of the two signs, or take blanks away only, keep the signs together. -/
theorem applyAll {rules : List Rule}
    (hrules : ∀ rule ∈ rules, (rule.deletes || rule.isSafe (.only ['>', '=']) []) = true)
    (hmarked : ∀ rule ∈ rules, rule.isSafe .marked [] = true) (h : Fused front t) :
    Fused front (applyAll rules t) := by
  have hsigns : ∀ c ∈ ['>', '='], (WordClass.only ['>', '=']).has c = true :=
    List.all_iff_forall_prop.mp (by decide)
  have hjoined : Joined front ['>', '='] t := h
  exact hjoined.applyAll (by simp) hsigns hrules hmarked

end Fused

/-! ### The rule for compound assignments -/

/-- Signs of compound assignments, apart from the equals sign. -/
def compoundPattern : Pattern :=
  [.oneOf "=!<>+-*/%&|^", .joined, .exactly "=", .notAhead fun c => c == '=' || c == '>']

theorem compoundPattern_read {before rest read written : Text}
    (hmatch : Pattern.Matches rest before compoundPattern read written) :
    ∃ c gap, read = c :: (gap ++ ['=']) ∧ gap.all isBlank = true := by
  obtain _ | ⟨hsign, _ | @⟨_, gap, _, _, _, _, _, hgap, _ | ⟨hequals, _ | ⟨hahead, ⟨⟩⟩⟩⟩⟩ := hmatch
  cases hahead
  cases hequals with
  | token hequals =>
  cases hgap with
  | gap hgap =>
  cases hsign with
  | token hsign =>
      obtain rfl := List.mem_singleton.mp hequals
      obtain ⟨c, _, rfl⟩ := List.mem_map.mp hsign
      exact ⟨c, gap, rfl, hgap⟩

/-- No match of the rule goes on over a bracket. -/
theorem respaceFrom_compound_append (before u v : Text) :
    ∃ u', compoundPattern.respaceFrom before 0 (u ++ '>' :: v) =
      u' ++ compoundPattern.respaceFrom (u.reverse ++ before) 0 ('>' :: v) := by
  generalize ht : u ++ '>' :: v = t
  induction before, t using Pattern.respaceFrom_induct compoundPattern generalizing u with
  | done before => simp at ht
  | found before read written rest hread hmatch ih =>
      obtain ⟨d, gap, hsplit, hgap⟩ := compoundPattern_read (Pattern.matches_of_match? hmatch)
      have hsign : '>' ∉ gap ++ ['='] := by
        intro hmem
        rcases List.mem_append.mp hmem with hmem | hmem
        · exact absurd (List.all_eq_true.mp hgap _ hmem) (by decide)
        · exact absurd hmem (by decide)
      rcases List.append_eq_append_iff.mp ht with ⟨middle, hfront, hback⟩ | ⟨left, rfl, hback⟩
      · cases middle with
        | nil =>
            rw [List.nil_append] at hback
            rw [List.append_nil] at hfront
            subst hback hfront
            exact ⟨written, Pattern.respaceFrom_match hread hmatch⟩
        | cons e middle =>
            obtain ⟨rfl, _⟩ := List.cons.inj hback
            cases u with
            | nil => exact ⟨[], by rw [← ht]; rfl⟩
            | cons f u =>
                have hinner := (List.cons.inj (hsplit.symm.trans hfront)).2
                exact absurd (by simp [hinner]) hsign
      · obtain ⟨u', hu'⟩ := ih left hback.symm
        refine ⟨written ++ u', ?_⟩
        rw [Pattern.respaceFrom_match hread hmatch, hu']
        simp
  | passed before c cs hnone ih =>
      cases u with
      | nil => exact ⟨[], by rw [← ht]; rfl⟩
      | cons d u =>
          obtain ⟨rfl, rfl⟩ := List.cons.inj ht
          obtain ⟨u', hu'⟩ := ih u rfl
          refine ⟨d :: u', ?_⟩
          rw [Pattern.respaceFrom_passed hnone, hu']
          simp

/-- A bracket and the sign of an assignment after it are written as one operator. -/
theorem respaceFrom_compound {gap v : Text} (hgap : gap.all isBlank = true)
    (hv : headIs (fun c => c == '=' || c == '>') (solid v) = false) (before : Text) :
    ∃ v', compoundPattern.respaceFrom before 0 ('>' :: (gap ++ '=' :: v)) = '>' :: '=' :: v' := by
  have hahead : headIs (fun c => c == '=' || c == '>') v = false := by
    cases v with
    | nil => rfl
    | cons c cs =>
        by_cases hc : isBlank c = true
        · rw [headIs_cons, Bool.eq_false_iff]
          intro hsign
          rcases (by simpa using hsign : c = '=' ∨ c = '>') with rfl | rfl <;> cases hc
        · rwa [solid_cons (by simpa using hc), headIs_cons] at hv
  have hequals : isBlank '=' = false := by decide
  cases gap with
  | nil =>
      have hbracket : Pattern.match? before ('>' :: '=' :: v) compoundPattern = none := by
        simp [Pattern.match?, Part.match?, compoundPattern, Part.oneOf, Part.joined, hequals]
      have hsign : Pattern.match? ('>' :: before) ('=' :: v) compoundPattern = none := by
        refine Pattern.match?_eq_none fun rest read written hwhole hmatch => ?_
        obtain ⟨c, gap, rfl, hgap⟩ := compoundPattern_read hmatch
        rw [List.cons_append, List.cons.injEq, List.append_assoc] at hwhole
        rw [hwhole.2, solid_append, solid_blanks hgap, List.nil_append, List.cons_append,
          solid_cons hequals] at hv
        cases hv
      rw [List.nil_append, Pattern.respaceFrom_cons hbracket, Pattern.respaceFrom_cons hsign]
      exact ⟨_, rfl⟩
  | cons b bs =>
      have htake : (b :: (bs ++ '=' :: v)).takeWhile isBlank = b :: bs :=
        List.takeWhile_append_of_pos (List.all_eq_true.mp hgap) |>.trans (by simp [hequals])
      have hdrop : ('>' :: b :: (bs ++ '=' :: v)).drop (1 + (bs.length + 1)) = '=' :: v := by
        rw [← List.cons_append, ← List.cons_append]
        exact List.drop_left' (by simp; omega)
      have hdrop' : ('>' :: b :: (bs ++ '=' :: v)).drop (1 + (bs.length + 1) + 1) = v := by
        rw [← List.drop_drop, hdrop]
        rfl
      have hmatch : Pattern.match? before (('>' :: (b :: bs ++ ['='])) ++ v) compoundPattern =
          some ⟨'>' :: (b :: bs ++ ['=']), ['>', '=']⟩ := by
        simp [Pattern.match?, Part.match?, compoundPattern, Part.oneOf, Part.joined, Part.exactly,
          Part.notAhead, htake, hdrop, hdrop', hahead]
      have hsplit : '>' :: (b :: bs ++ '=' :: v) = '>' :: (b :: bs ++ ['=']) ++ v := by simp
      rw [hsplit, Pattern.respaceFrom_match (by simp) hmatch]
      exact ⟨_, rfl⟩

/-- What stands between the two signs goes, wherever they stand. -/
theorem fused_compound {t front back : Text} (hsolid : solid t = front ++ '>' :: '=' :: back)
    (hback : headIs (fun c => c == '=' || c == '>') back = false) :
    Fused front (compoundPattern.respace t) := by
  obtain ⟨u, gap, v, rfl, hgap, rfl, rfl⟩ := exists_of_solid hsolid
  obtain ⟨u', hu'⟩ := respaceFrom_compound_append [] u (gap ++ '=' :: v)
  obtain ⟨v', hv'⟩ := respaceFrom_compound hgap hback (u.reverse ++ [])
  refine ⟨u', v', by rw [Pattern.respace, hu', hv'], ?_⟩
  have hsafe : Pattern.isSafe .marked [] false compoundPattern = true := by decide +kernel
  have hwhole := solid_respaceFrom hsafe [] (u ++ '>' :: (gap ++ '=' :: v))
  rw [hu', solid_append, solid_append, solid_respaceFrom hsafe] at hwhole
  exact List.append_cancel_right hwhole

/-! ### The rules of two families -/

/-- After the rule for compound assignments, no rule parts the two signs. -/
theorem Fused.of_compound {earlier later : List Rule} {compound : Rule}
    (haction : compound.action = .respace compoundPattern)
    (hlater : ∀ rule ∈ later, (rule.deletes || rule.isSafe (.only ['>', '=']) []) = true)
    (hmarked : ∀ rule ∈ earlier ++ compound :: later, rule.isSafe .marked [] = true)
    {t front back : Text} (hsolid : solid t = front ++ '>' :: '=' :: back)
    (hback : headIs (fun c => c == '=' || c == '>') back = false) :
    Fused front (Spacing.applyAll (earlier ++ compound :: later) t) := by
  obtain ⟨hearlier, hmarked⟩ := List.forall_mem_append.mp hmarked
  have hkept : solid (Spacing.applyAll earlier t) = solid t := solid_applyAll hearlier t
  have hfused : Fused front (compound.apply (Spacing.applyAll earlier t)) := by
    rw [Rule.apply.eq_def compound, haction]
    exact fused_compound (hkept.trans hsolid) hback
  rw [applyAll_append, applyAll_cons]
  exact hfused.applyAll hlater (List.forall_mem_cons.mp hmarked).2

/-- An angle bracket and the sign of an assignment become one operator, whatever blanks are between
them. -/
theorem fused_rules {family : Family} (hcode : family = .javascript ∨ family = .cFamily)
    (language : Option Text) {t front back : Text}
    (hsolid : solid t = front ++ '>' :: '=' :: back)
    (hback : headIs (fun c => c == '=' || c == '>') back = false) :
    Fused front (applyAll (rules family language) t) := by
  have hmarked := rules_isSafe family language
  have hlater : ∀ rule ∈ javascriptRules.drop 3 ++ cFirstRules.drop 3 ++ memberArrowRule :: cLastRules,
      (rule.deletes || rule.isSafe (.only ['>', '=']) []) = true := by decide +kernel
  rcases hcode with rfl | rfl
  · have hsplit : javascriptRules = javascriptRules.take 2 ++
        javascriptRules[2] :: javascriptRules.drop 3 := rfl
    rw [rules, hsplit] at hmarked ⊢
    exact Fused.of_compound rfl (fun rule hrule => hlater rule (by simp [hrule])) hmarked hsolid hback
  · have hsplit : cFirstRules = cFirstRules.take 2 ++ cFirstRules[2] :: cFirstRules.drop 3 := rfl
    obtain ⟨last, hrules, hlast⟩ := exists_cRules language
    rw [rules, hrules, hsplit, List.append_assoc, List.cons_append] at hmarked ⊢
    refine Fused.of_compound rfl (fun rule hrule => hlater rule ?_) hmarked hsolid hback
    rcases List.mem_append.mp hrule with hrule | hrule
    · simp [hrule]
    · exact List.mem_append_right _ (hlast rule hrule)

/-- Between a masked literal and the sign of an assignment there are blanks. -/
theorem apart_assignment {family : Family} (hcode : family = .javascript ∨ family = .cFamily)
    (language : Option Text) (t : Text) :
    Apart (.only [Literal.markClose]) (.only ['=']) (applyAll (rules family language) t) := by
  have hequals : ∀ {d : Char}, (WordClass.only ['=']).has d = true → d = '=' := by
    exact fun hd => List.mem_singleton.mp (WordClass.mem_of_only hd)
  rcases hcode with rfl | rfl
  · refine apart_javascriptRules ⟨by decide +kernel, ?_⟩ (by decide +kernel) t
    rintro c d - hd
    obtain rfl := hequals hd
    exact .inr (by decide +kernel)
  · refine apart_cRules ⟨by decide +kernel, ?_⟩ (by decide +kernel)
      (only_of_startsOperand (by decide)) language t
    rintro c d - hd
    obtain rfl := hequals hd
    exact .inr (by decide +kernel)

end SourceLayout.Spacing
