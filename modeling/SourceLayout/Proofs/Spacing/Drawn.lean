import SourceLayout.Proofs.Spacing.Bracket

/-!
# Rules that draw brackets to their neighbours

The parenthesis of a call is drawn to the name before it, and brackets are drawn to what they hold.
Told on spots, the bracket rules take away every gap right inside of a bracket and no other one. The
call rule asks for a whole name, so it is only told where it may take a gap away: before an opening
parenthesis after a word character.
-/

namespace SourceLayout.Spacing

open Text (solid solid_append solid_blanks solid_cons)

/-- A name, unless it is a keyword, and the parenthesis after it. -/
def callPattern (keywords : List Text) : Pattern :=
  [.notAfter isWord, .run isWord keywords, .joined, .exactly "("]

theorem callPattern_read {keywords : List Text} {before rest read written : Text}
    (hmatch : Pattern.Matches rest before (callPattern keywords) read written) :
    ∃ front c blanks, isWord c = true ∧ blanks ≠ [] ∧ blanks.all isBlank = true ∧
      read = front ++ c :: (blanks ++ ['(']) ∧ written = front ++ [c, '('] := by
  obtain _ | ⟨hlook, _ | @⟨_, word, _, _, _, _, _, hword,
    _ | @⟨_, blanks, _, _, _, _, _, hblanks, _ | ⟨hparen, ⟨⟩⟩⟩⟩⟩ := hmatch
  cases hlook
  cases hword with
  | run hword hne =>
  cases hblanks with
  | gap hall hleast =>
  cases hparen with
  | token hchoice =>
      obtain rfl := List.mem_singleton.mp hchoice
      obtain ⟨front, c, rfl⟩ := (List.eq_nil_or_concat word).resolve_left hne
      rw [List.concat_eq_append] at hword
      exact ⟨front, c, blanks, hword c (List.mem_append_right front List.mem_cons_self),
        List.ne_nil_of_length_pos hleast, hall, by simp, by simp⟩

/-- What holds of the gaps still holds after the call rule if it may lose a gap between a word
character and an opening parenthesis. -/
theorem everywhere_callPattern {keywords : List Text} {holds : Text → Char → Bool → Prop}
    (hlost : ∀ before, headIs isWord before = true → holds before '(' true →
      holds before '(' false) {before chars t : Text} {gap : Bool}
    (h : Everywhere holds chars (spotsFrom gap t)) :
    Everywhere holds chars (spotsFrom gap ((callPattern keywords).respaceFrom before 0 t)) := by
  induction before, t using Pattern.respaceFrom_induct (callPattern keywords)
    generalizing chars gap with
  | done before => exact h
  | found before read written rest hread hmatch ih =>
      rw [Pattern.respaceFrom_match hread hmatch]
      obtain ⟨front, c, blanks, hc, hne, hall, rfl, rfl⟩ :=
        callPattern_read (Pattern.matches_of_match? hmatch)
      have hcsolid : isBlank c = false := WordClass.plain.isBlank_eq_false c hc
      have hparen : isBlank '(' = false := by decide
      have hsplit : front ++ c :: (blanks ++ ['(']) ++ rest =
          front ++ c :: (blanks ++ '(' :: rest) := by simp
      rw [hsplit, spotsFrom_append_solid hcsolid, spots, spotsFrom_gap hall,
        spotsFrom_solid hparen, everywhere_append] at h
      rw [List.append_assoc, List.cons_append, List.singleton_append,
        spotsFrom_append_solid hcsolid, spots, spotsFrom_solid hparen, everywhere_append]
      obtain ⟨hleft, hgap, hright⟩ := h
      refine ⟨hleft, ?_, ih hright⟩
      have hgapped : (!blanks.isEmpty) = true := by simpa using hne
      rw [Bool.false_or, hgapped] at hgap
      refine hlost _ ?_ hgap
      rw [map_char_spotsFrom]
      simp [solid, hcsolid, hc]
  | passed before d ds hnone ih =>
      rw [Pattern.respaceFrom_passed hnone]
      cases hd : isBlank d with
      | true =>
          rw [spotsFrom_blank hd] at h ⊢
          exact ih h
      | false =>
          rw [spotsFrom_solid hd] at h ⊢
          exact ⟨h.1, ih h.2⟩

/-- No gap after an opening bracket. -/
def openedGap (before : Text) (_ : Char) (gap : Bool) : Bool :=
  gap && !headIs isOpening before

/-- No gap before a closing bracket. -/
def closedGap (_ : Text) (c : Char) (gap : Bool) : Bool :=
  gap && !isClosing c

def openedPattern : Pattern :=
  [.oneOf "([\x7b", .joined]

def closedPattern : Pattern :=
  [.joined, .oneOf ")]\x7d"]

theorem match?_oneOf (chars : String) (before : Text) (c : Char) (cs : Text) :
    (Part.oneOf chars).match? before (c :: cs) =
      if chars.toList.contains c then some ⟨[c], [c]⟩ else none := by
  rw [Part.oneOf, Part.match?]
  induction chars.toList with
  | nil => rfl
  | cons d ds ih =>
      rw [List.map_cons, List.find?_cons, List.contains_cons]
      have hfront : [d].isPrefixOf (c :: cs) = (d == c) := by simp [List.isPrefixOf]
      rw [hfront, Bool.beq_comm]
      cases hc : c == d with
      | true => simp [eq_of_beq hc]
      | false => simpa using ih

theorem isOpening_eq (c : Char) : "([\x7b".toList.contains c = isOpening c := by
  have hchars : "([\x7b".toList = ['(', '[', '{'] := rfl
  rw [isOpening, Bool.or_assoc, hchars, List.contains_cons, List.contains_cons, List.contains_cons,
    List.contains_nil, Bool.or_false]

theorem isClosing_eq (c : Char) : ")]\x7d".toList.contains c = isClosing c := by
  have hchars : ")]\x7d".toList = [')', ']', '}'] := rfl
  rw [isClosing, Bool.or_assoc, hchars, List.contains_cons, List.contains_cons, List.contains_cons,
    List.contains_nil, Bool.or_false]

theorem match?_joined {blanks rest : Text} (hblanks : blanks.all isBlank = true) (hne : blanks ≠ [])
    (hrest : headIs isBlank rest = false) (before : Text) :
    Part.joined.match? before (blanks ++ rest) = some ⟨blanks, []⟩ := by
  have hleast : 1 ≤ blanks.length := List.length_pos_iff.mpr hne
  rw [Part.joined, Part.match?, takeWhile_blanks hblanks hrest, if_pos hleast,
    if_neg Bool.false_ne_true]

theorem match?_openedPattern {c : Char} {before blanks rest : Text} (hc : isOpening c = true)
    (hblanks : blanks.all isBlank = true) (hne : blanks ≠ []) (hrest : headIs isBlank rest = false) :
    Pattern.match? before (c :: (blanks ++ rest)) openedPattern = some ⟨c :: blanks, [c]⟩ := by
  have hjoined := match?_joined hblanks hne hrest (c :: before)
  rw [openedPattern, Pattern.match?, match?_oneOf, isOpening_eq]
  simp_all [Pattern.match?]

theorem openedPattern_read {before rest read written : Text}
    (hmatch : Pattern.Matches rest before openedPattern read written) :
    ∃ c blanks, isOpening c = true ∧ blanks ≠ [] ∧ blanks.all isBlank = true ∧
      headIs isBlank rest = false ∧ read = c :: blanks ∧ written = [c] := by
  obtain _ | ⟨hsign, _ | @⟨_, blanks, _, _, _, _, _, hblanks, ⟨⟩⟩⟩ := hmatch
  cases hblanks with
  | gap hall hleast hrest =>
  cases hsign with
  | token hchoice =>
      obtain ⟨c, hc, rfl⟩ := List.mem_map.mp hchoice
      refine ⟨c, blanks, ?_, List.ne_nil_of_length_pos hleast, hall, hrest, by simp, rfl⟩
      rw [← isOpening_eq]
      exact List.contains_iff_mem.mpr hc

theorem match?_closedPattern {c : Char} {before blanks rest : Text} (hc : isClosing c = true)
    (hblanks : blanks.all isBlank = true) (hne : blanks ≠ []) :
    Pattern.match? before (blanks ++ c :: rest) closedPattern = some ⟨blanks ++ [c], [c]⟩ := by
  have hjoined := match?_joined hblanks hne
    (show headIs isBlank (c :: rest) = false from isBlank_of_isClosing hc) before
  have hsign := match?_oneOf ")]\x7d" (blanks.reverse ++ before) c rest
  rw [isClosing_eq] at hsign
  rw [closedPattern, Pattern.match?, hjoined]
  simp_all [Pattern.match?]

theorem closedPattern_read {before rest read written : Text}
    (hmatch : Pattern.Matches rest before closedPattern read written) :
    ∃ c blanks, isClosing c = true ∧ blanks ≠ [] ∧ blanks.all isBlank = true ∧
      read = blanks ++ [c] ∧ written = [c] := by
  obtain _ | @⟨_, blanks, _, _, _, _, _, hblanks, _ | ⟨hsign, ⟨⟩⟩⟩ := hmatch
  cases hblanks with
  | gap hall hleast =>
  cases hsign with
  | token hchoice =>
      obtain ⟨c, hc, rfl⟩ := List.mem_map.mp hchoice
      refine ⟨c, blanks, ?_, List.ne_nil_of_length_pos hleast, hall, by simp, rfl⟩
      rw [← isClosing_eq]
      exact List.contains_iff_mem.mpr hc

/-- After an opening bracket a gap goes, and no other one. The bracket, if there is one right before
the text, has no gap after it any more. -/
theorem spotsFrom_openedPattern {before chars t : Text} {gap : Bool}
    (hopened : headIs isOpening chars = true → headIs isBlank t = false ∧ gap = false) :
    spotsFrom gap (openedPattern.respaceFrom before 0 t) =
      regap openedGap chars (spotsFrom gap t) := by
  have hgap : ∀ c, openedGap chars c gap = gap := by
    intro c
    cases hhead : headIs isOpening chars with
    | false => simp [openedGap, hhead]
    | true => simp [openedGap, (hopened hhead).2]
  induction before, t using Pattern.respaceFrom_induct openedPattern generalizing chars gap with
  | done before => rfl
  | found before read written rest hread hmatch ih =>
      rw [Pattern.respaceFrom_match hread hmatch]
      obtain ⟨c, blanks, hopening, hne, hblanks, hrest, rfl, rfl⟩ :=
        openedPattern_read (Pattern.matches_of_match? hmatch)
      have hc := isBlank_of_isOpening hopening
      have hafter : regap openedGap (c :: chars) (spotsFrom true rest) =
          regap openedGap (c :: chars) (spotsFrom false rest) := by
        cases rest with
        | nil => rfl
        | cons d ds =>
            have hd : isBlank d = false := hrest
            rw [spotsFrom_solid hd, spotsFrom_solid hd, regap, regap]
            simp [openedGap, hopening]
      have hgapped : (!blanks.isEmpty) = true := by simpa using hne
      rw [List.singleton_append, spotsFrom_solid hc, ih (fun _ => ⟨hrest, rfl⟩) (by simp [openedGap]),
        List.cons_append, spotsFrom_solid hc, spotsFrom_gap hblanks, regap, hgap, Bool.false_or,
        hgapped, hafter]
  | passed before c cs hnone ih =>
      rw [Pattern.respaceFrom_passed hnone]
      cases hc : isBlank c with
      | true =>
          have hother : headIs isOpening chars = false := by
            by_contra hhead
            rw [Bool.not_eq_false] at hhead
            have hhead' := (hopened hhead).1
            rw [headIs_cons, hc] at hhead'
            cases hhead'
          rw [spotsFrom_blank hc, spotsFrom_blank hc]
          exact ih (by simp [hother]) (by simp [openedGap, hother])
      | false =>
          rw [spotsFrom_solid hc, spotsFrom_solid hc, regap, hgap]
          congr 1
          refine ih (fun hopening => ⟨?_, rfl⟩) (by simp [openedGap])
          -- A gap after the bracket would have matched.
          obtain ⟨blanks, rest, rfl, hblanks, hrest⟩ := exists_blanks cs
          by_cases hne : blanks = []
          · rwa [hne]
          · cases hnone _ (match?_openedPattern hopening hblanks hne hrest)

/-- Before a closing bracket a gap goes, and no other one. No closing bracket comes next where the gap
has begun before the text. -/
theorem spotsFrom_closedPattern {before chars t : Text} {gap : Bool}
    (hopen : gap = true → headIs isClosing (solid t) = false) :
    spotsFrom gap (closedPattern.respaceFrom before 0 t) =
      regap closedGap chars (spotsFrom gap t) := by
  induction before, t using Pattern.respaceFrom_induct closedPattern generalizing chars gap with
  | done before => rfl
  | found before read written rest hread hmatch ih =>
      rw [Pattern.respaceFrom_match hread hmatch]
      obtain ⟨c, blanks, hclosing, hne, hblanks, rfl, rfl⟩ :=
        closedPattern_read (Pattern.matches_of_match? hmatch)
      have hc := isBlank_of_isClosing hclosing
      obtain rfl : gap = false := by
        rw [← Bool.not_eq_true]
        intro hgap
        have hnext := hopen hgap
        rw [List.append_assoc, solid_append, solid_blanks hblanks, List.nil_append, List.singleton_append,
          solid_cons hc, headIs_cons, hclosing] at hnext
        cases hnext
      rw [List.singleton_append, spotsFrom_solid hc, @ih (c :: chars) false nofun, List.append_assoc,
        List.singleton_append, spotsFrom_gap hblanks, spotsFrom_solid hc, regap]
      simp [closedGap, hclosing]
  | passed before c cs hnone ih =>
      rw [Pattern.respaceFrom_passed hnone]
      cases hc : isBlank c with
      | true =>
          rw [spotsFrom_blank hc, spotsFrom_blank hc]
          refine ih fun _ => ?_
          -- A closing bracket after the gap would have matched.
          obtain ⟨blanks, rest, rfl, hblanks, hrest⟩ := exists_blanks cs
          rw [solid_append, solid_blanks hblanks, List.nil_append]
          cases rest with
          | nil => rfl
          | cons d ds =>
              have hd : isBlank d = false := hrest
              rw [solid_cons hd, headIs_cons, ← Bool.not_eq_true]
              intro hclosing
              have hall : (c :: blanks).all isBlank = true := by simp [hc, hblanks]
              cases hnone _ (match?_closedPattern hclosing hall (by simp))
      | false =>
          have hgap : closedGap chars c gap = gap := by
            cases gap with
            | false => rfl
            | true =>
                have hnext := hopen rfl
                rw [solid_cons hc, headIs_cons] at hnext
                simp [closedGap, hnext]
          rw [spotsFrom_solid hc, spotsFrom_solid hc, regap, hgap, @ih (c :: chars) false nofun]

theorem spots_openedPattern (t : Text) :
    spots (openedPattern.respace t) = regap openedGap [] (spots t) :=
  spotsFrom_openedPattern nofun

theorem spots_closedPattern (t : Text) :
    spots (closedPattern.respace t) = regap closedGap [] (spots t) :=
  spotsFrom_closedPattern nofun

end SourceLayout.Spacing
