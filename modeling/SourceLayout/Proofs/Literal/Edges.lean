import SourceLayout.Proofs.Literal.Markers

/-!
# Where the marks of a comment line stand

Whether a line is taken for part of a block comment depends on its first two and its last two
characters and on the sign that opens one. In tidied code the first and the last piece are those of
the code, and no span starts or ends with an asterisk unless it is the last one. So two such signs
that stand next to each other after tidying stood there before, inside of one span.
-/

namespace SourceLayout.Literal

open Comment (slash signs)
open Spacing (Apart)
open Text (Trimmed)

variable {family : Family} {mayEnd : Bool} {spans : Text → Text} {ps : List Piece}

def star : WordClass :=
  .only ['*']

theorem star_iff {c : Char} : star.has c = true ↔ c = '*' := by
  simp only [star, WordClass.only, Bool.and_eq_true, List.contains_iff_mem, List.mem_singleton,
    and_iff_right_iff_imp]
  rintro rfl
  decide

/-! ### Spans -/

theorem Closes.ne_nil {stop previous : Char} {inner : Text} (h : Closes stop previous inner) :
    inner ≠ [] := by
  cases h <;> simp

theorem star_of_literalEnd? {previous : Option Char} {opener stop : Char}
    (hend : family.literalEnd? previous opener = some stop) : star.has opener = false := by
  have hquotes : ∀ c ∈ family.quotes, star.has c = false :=
    List.all_iff_forall_prop.mp (by cases family <;> decide)
  rcases (eq_slash_or_quote hend).2 with ⟨rfl, _⟩ | hquote
  · decide
  · exact hquotes opener hquote

/-- The kinds of span. -/
def IsSpan (family : Family) (span : Text) : Prop :=
  IsClosed family span ∨ IsQuiet span ∨ IsUnclosed family span

theorem Legible.isSpan (h : Legible family mayEnd spans ps) {digits : Text}
    (hmem : .mark digits ∈ ps) : IsSpan family (spans digits) := by
  induction h with
  | nil => cases hmem
  | char _ _ ih => exact ih (by simpa using hmem)
  | closed hspan _ ih =>
      rcases List.mem_cons.mp hmem with heq | hmem
      · rw [Piece.mark.inj heq]
        exact .inl hspan
      · exact ih hmem
  | quiet hspan _ ih =>
      rcases List.mem_cons.mp hmem with heq | hmem
      · rw [Piece.mark.inj heq]
        exact .inr (.inl hspan)
      · exact ih hmem
  | unclosed hspan _ =>
      rw [Piece.mark.inj (List.mem_singleton.mp hmem)]
      exact .inr (.inr hspan)

theorem Legible.of_append {front back : List Piece}
    (h : Legible family mayEnd spans (front ++ back)) : Legible family mayEnd spans back := by
  induction front with
  | nil => exact h
  | cons piece front ih =>
      rw [List.cons_append] at h
      generalize hrest : front ++ back = rest at h ih
      cases h with
      | char _ h | closed _ h | quiet _ h => exact ih h
      | unclosed =>
          obtain ⟨rfl, rfl⟩ := List.append_eq_nil_iff.mp hrest
          exact .nil

/-- A span that is not the last piece closes or is quiet. -/
theorem Legible.closed_or_quiet {front back : List Piece} {digits : Text}
    (h : Legible family mayEnd spans (front ++ .mark digits :: back)) (hne : back ≠ []) :
    IsClosed family (spans digits) ∨ IsQuiet (spans digits) := by
  cases h.of_append with
  | closed hspan => exact .inl hspan
  | quiet hspan => exact .inr hspan
  | unclosed => exact absurd rfl hne

theorem IsSpan.ne_nil {span : Text} (h : IsSpan family span) : span ≠ [] := by
  rcases h with ⟨_, _, _, _, _, rfl, _⟩ | hquiet | ⟨_, _, _, _, rfl, _⟩
  · simp
  · exact hquiet.ne_nil
  · simp

theorem headIs_star_eq {t : Text} : headIs star.has t = headIs (· == '*') t := by
  cases t with
  | nil => rfl
  | cons c cs =>
      rw [headIs_cons, headIs_cons, Bool.eq_iff_iff, star_iff, beq_iff_eq]

theorem IsSpan.head {span : Text} (h : IsSpan family span) : headIs star.has span = false := by
  rcases h with ⟨_, _, _, _, _, rfl, hend, _⟩ | hquiet | ⟨_, _, _, _, rfl, hend, _⟩
  · exact star_of_literalEnd? hend
  · rw [headIs_star_eq]
    exact hquiet.head
  · exact star_of_literalEnd? hend

/-- A span that ends with a delimiter, letters or quietly does not end with an asterisk. -/
theorem last_of_closed_or_quiet {span : Text} (h : IsClosed family span ∨ IsQuiet span) :
    headIs star.has span.reverse = false := by
  rcases h with ⟨_, opener, stop, inner, flags, rfl, hend, hcloses, hletters, _⟩ | hquiet
  · by_cases hflags : flags = []
    · rw [hflags, List.append_nil, Text.headIs_reverse_cons hcloses.ne_nil,
        Text.headIs_reverse_of_getLast? hcloses.getLast?, (eq_slash_or_quote hend).1]
      exact star_of_literalEnd? hend
    · rw [← List.cons_append, Text.headIs_reverse_append_of_ne_nil hflags]
      refine Text.headIs_reverse_of_forall_false fun c hc => ?_
      rw [Bool.eq_false_iff, Ne, star_iff]
      rintro rfl
      exact absurd (List.all_eq_true.mp hletters _ hc) (by decide)
  · rw [headIs_star_eq]
    exact hquiet.last

/-- Only a regular expression starts with a slash. -/
theorem IsSpan.eq_javascript {t : Text} (h : IsSpan family ('/' :: t)) : family = .javascript := by
  have hquotes : '/' ∉ family.quotes := by cases family <;> decide
  rcases h with ⟨_, opener, stop, inner, flags, heq, hend, _⟩ | hquiet | ⟨_, opener, stop, inner, heq, hend, _⟩
  · obtain ⟨rfl, _⟩ := List.cons.inj heq
    exact ((eq_slash_or_quote hend).2.resolve_right hquotes).2
  · exact absurd (hquiet.quiet '/' List.mem_cons_self) (by decide)
  · obtain ⟨rfl, _⟩ := List.cons.inj heq
    exact ((eq_slash_or_quote hend).2.resolve_right hquotes).2

/-! ### The first and the last piece -/

theorem isSolid_of_head? {t : Text} (hhead : headIs isBlank t = false) :
    ∀ piece ∈ (pieces t).head?, piece.isSolid = true := by
  intro piece hpiece
  obtain ⟨rest, hrest⟩ := List.head?_eq_some_iff.mp hpiece
  have htext := text_pieces t
  rw [hrest, List.flatMap_cons] at htext
  cases piece with
  | mark digits => rfl
  | char c =>
      rw [← htext] at hhead
      simpa [Piece.text, Piece.isSolid] using hhead

theorem exists_cons_of_filter {ps : List Piece} {piece : Piece} {rest : List Piece}
    (hfilter : ps.filter Piece.isSolid = piece :: rest)
    (hhead : ∀ first ∈ ps.head?, first.isSolid = true) :
    ∃ ps', ps = piece :: ps' ∧ ps'.filter Piece.isSolid = rest := by
  cases ps with
  | nil => cases hfilter
  | cons first ps =>
      rw [List.filter_cons_of_pos (hhead first rfl), List.cons.injEq] at hfilter
      obtain ⟨rfl, hrest⟩ := hfilter
      exact ⟨ps, rfl, hrest⟩

variable {masked spaced : Text}

namespace Spaced

theorem exists_first (h : Spaced family mayEnd spans masked spaced) {piece : Piece}
    {ps : List Piece} (hmasked : pieces masked = piece :: ps) :
    ∃ ps', pieces spaced = piece :: ps' ∧
      ps'.filter Piece.isSolid = ps.filter Piece.isSolid := by
  have hfirst := isSolid_of_head? h.trimmed_masked.head piece (by simp [hmasked])
  refine exists_cons_of_filter ?_ (isSolid_of_head? h.trimmed_spaced.head)
  rw [← List.filter_cons_of_pos hfirst, ← hmasked]
  exact h.solid

theorem exists_first' (h : Spaced family mayEnd spans masked spaced) {piece : Piece}
    {ps' : List Piece} (hspaced : pieces spaced = piece :: ps') :
    ∃ ps, pieces masked = piece :: ps ∧
      ps.filter Piece.isSolid = ps'.filter Piece.isSolid := by
  have hfirst := isSolid_of_head? h.trimmed_spaced.head piece (by simp [hspaced])
  refine exists_cons_of_filter ?_ (isSolid_of_head? h.trimmed_masked.head)
  rw [← List.filter_cons_of_pos hfirst, ← hspaced]
  exact h.solid.symm

theorem exists_last (h : Spaced family mayEnd spans masked spaced) {piece : Piece}
    {ps' : List Piece} (hspaced : pieces spaced = ps' ++ [piece]) :
    ∃ ps, pieces masked = ps ++ [piece] := by
  have hlast := isSolid_of_getLast? h.trimmed_spaced.last piece (by simp [hspaced])
  have hsolid : ((pieces masked).reverse.filter Piece.isSolid) =
      piece :: ps'.reverse.filter Piece.isSolid := by
    rw [List.filter_reverse, ← solidPieces, ← h.solid, solidPieces, hspaced, ← List.filter_reverse,
      List.reverse_append, List.reverse_singleton, List.singleton_append,
      List.filter_cons_of_pos hlast]
  obtain ⟨ps, hps, _⟩ := exists_cons_of_filter hsolid (by
    simpa using isSolid_of_getLast? h.trimmed_masked.last)
  exact ⟨ps.reverse, by rw [← List.reverse_reverse (pieces masked), hps, List.reverse_cons]⟩

end Spaced

/-! ### Signs next to each other -/

/-- Nothing but an asterisk outside of the spans begins with one. -/
theorem Legible.exists_star (h : Legible family mayEnd spans ps) {t : Text}
    (hfill : ps.flatMap (Piece.fill spans) = '*' :: t) :
    ∃ ps', ps = .char '*' :: ps' ∧ ps'.flatMap (Piece.fill spans) = t := by
  cases ps with
  | nil => cases hfill
  | cons piece ps =>
      cases piece with
      | char c =>
          obtain ⟨rfl, rfl⟩ := List.cons.inj hfill
          exact ⟨ps, rfl, rfl⟩
      | mark digits =>
          have hspan := h.isSpan List.mem_cons_self
          have hhead := hspan.head
          rw [List.flatMap_cons, Piece.fill] at hfill
          rw [← Text.headIs_append hspan.ne_nil, hfill] at hhead
          exact absurd hhead (by rw [headIs_cons, star_iff.mpr rfl]; simp)

theorem Legible.exists_of_headIs_star (h : Legible family mayEnd spans ps)
    (hstar : headIs star.has (ps.flatMap (Piece.fill spans)) = true) :
    ∃ ps', ps = .char '*' :: ps' := by
  cases hfill : ps.flatMap (Piece.fill spans) with
  | nil => simp [hfill] at hstar
  | cons c cs =>
      rw [hfill, headIs_cons, star_iff] at hstar
      rw [hstar] at hfill
      obtain ⟨ps', hps, _⟩ := h.exists_star hfill
      exact ⟨ps', hps⟩

/-- And before the last piece nothing else ends with one. -/
theorem Legible.exists_last_star {front : List Piece} {piece : Piece}
    (h : Legible family mayEnd spans (front ++ [piece]))
    (hlast : headIs star.has (front.flatMap (Piece.fill spans)).reverse = true) :
    ∃ front', front = front' ++ [.char '*'] := by
  rcases List.eq_nil_or_concat front with rfl | ⟨front', last, rfl⟩
  · cases hlast
  · rw [List.concat_eq_append] at h hlast ⊢
    rw [List.flatMap_append, List.flatMap_singleton] at hlast
    cases last with
    | char c =>
        rw [Piece.fill, Text.headIs_reverse_append_of_ne_nil (by simp)] at hlast
        obtain rfl := star_iff.mp hlast
        exact ⟨front', rfl⟩
    | mark digits =>
        have hne := (@Legible.isSpan _ _ _ _ h digits (by simp)).ne_nil
        rw [Piece.fill, Text.headIs_reverse_append_of_ne_nil hne] at hlast
        rw [List.append_assoc, List.singleton_append] at h
        rw [last_of_closed_or_quiet (h.closed_or_quiet (by simp))] at hlast
        cases hlast

theorem ne_slash_of_closed_or_quiet {span : Text} (h : IsClosed family span ∨ IsQuiet span) :
    span ≠ ['/'] := by
  rintro rfl
  rcases h with ⟨_, opener, stop, inner, flags, heq, _, hcloses, _⟩ | hquiet
  · obtain ⟨_, hnil⟩ := List.cons.inj heq
    exact hcloses.ne_nil (List.append_eq_nil_iff.mp hnil.symm).1
  · exact absurd (hquiet.quiet '/' List.mem_cons_self) (by decide)

namespace Spaced

/-- Tidied code begins a comment only if the code does. -/
theorem startsWith_opener (h : Spaced family mayEnd spans masked spaced)
    (hapart : Apart slash signs spaced)
    (hstart : ['/', '*'] <+: (pieces spaced).flatMap (Piece.fill spans)) :
    ['/', '*'] <+: (pieces masked).flatMap (Piece.fill spans) := by
  have htext := text_pieces spaced
  have hlegible := h.legible_spaced
  cases hspaced : pieces spaced with
  | nil => simp [hspaced] at hstart
  | cons piece ps' =>
      obtain ⟨ps, hmasked, _⟩ := h.exists_first' hspaced
      rw [hspaced] at hstart htext hlegible
      rw [hmasked]
      rw [List.flatMap_cons] at hstart htext ⊢
      have hrest := @Legible.of_append _ _ _ [piece] ps' hlegible
      have hsecond : ['*'] <+: ps'.flatMap (Piece.fill spans) →
          ∃ ps'', ps' = .char '*' :: ps'' := by
        rintro ⟨t, ht⟩
        obtain ⟨ps'', hps, _⟩ := hrest.exists_star ht.symm
        exact ⟨ps'', hps⟩
      cases piece with
      | char c =>
          obtain ⟨rfl, hstar⟩ := List.cons_prefix_cons.mp hstart
          obtain ⟨ps'', rfl⟩ := hsecond hstar
          have hboth : slash.has '/' = true ∧ signs.has '*' = true := by decide
          rw [← htext] at hapart
          exact absurd hboth hapart.not_first
      | mark digits =>
          have hspan := hlegible.isSpan List.mem_cons_self
          by_cases hlong : 2 ≤ (spans digits).length
          · exact (List.prefix_of_prefix_length_le hstart (List.prefix_append _ _) hlong).trans
              (List.prefix_append _ _)
          · obtain ⟨e, he⟩ := List.length_eq_one_iff.mp (by
              have hpositive := List.length_pos_iff.mpr hspan.ne_nil
              omega : (spans digits).length = 1)
            rw [Piece.fill, he] at hstart
            obtain ⟨rfl, hstar⟩ := List.cons_prefix_cons.mp hstart
            obtain ⟨ps'', rfl⟩ := hsecond hstar
            have hquiet := @Legible.closed_or_quiet _ _ _ [] _ _ hlegible (by simp)
            exact absurd he (ne_slash_of_closed_or_quiet hquiet)

/-- What an asterisk is kept away from is not what comes next. -/
theorem headIs_text_eq_false {q : WordClass} {piece : Piece} {ps : List Piece}
    (hapart : Apart star q ((.char '*' :: piece :: ps).flatMap Piece.text)) :
    headIs q.has piece.text = false := by
  have hhead : headIs q.has (piece.text ++ ps.flatMap Piece.text) = false :=
    hapart.headIs_eq_false (star_iff.mpr rfl)
  by_cases hne : piece.text = []
  · rw [hne]
    rfl
  · rwa [Text.headIs_append hne] at hhead

/-- Tidied code starts with no closer of a comment. -/
theorem not_startsWith_closer (h : Spaced family mayEnd spans masked spaced) {q : WordClass}
    (hslash : q.has '/' = true) (hmark : family = .javascript → q.has markOpen = true)
    (hapart : Apart star q spaced) : ¬['*', '/'] <+: (pieces spaced).flatMap (Piece.fill spans) := by
  rintro ⟨rest, hrest⟩
  obtain ⟨ps', hspaced, hfill⟩ := h.legible_spaced.exists_star hrest.symm
  have hlegible := h.legible_spaced
  have htext := text_pieces spaced
  rw [hspaced] at hlegible htext
  cases ps' with
  | nil => cases hfill
  | cons piece ps' =>
      have hspan := fun digits => @Legible.isSpan _ _ _ _ hlegible digits
      have hnear : headIs q.has piece.text = true := by
        cases piece with
        | char c =>
            obtain ⟨rfl, _⟩ := List.cons.inj hfill
            exact hslash
        | mark digits =>
            have hspan := hspan digits (by simp)
            rw [List.flatMap_cons, Piece.fill] at hfill
            cases hown : spans digits with
            | nil => exact absurd hown hspan.ne_nil
            | cons c cs =>
                rw [hown] at hfill hspan
                obtain ⟨rfl, _⟩ := List.cons.inj hfill
                exact hmark hspan.eq_javascript
      rw [← htext] at hapart
      rw [headIs_text_eq_false hapart] at hnear
      cases hnear

/-- Tidied code ends a comment only if the code does. -/
theorem endsWith_closer (h : Spaced family mayEnd spans masked spaced) {q : WordClass}
    (hslash : q.has '/' = true) (hmark : family = .javascript → q.has markOpen = true)
    (hapart : Apart star q spaced)
    (hends : ['*', '/'] <:+ (pieces spaced).flatMap (Piece.fill spans)) :
    ['*', '/'] <:+ (pieces masked).flatMap (Piece.fill spans) := by
  have htext := text_pieces spaced
  have hlegible := h.legible_spaced
  rcases List.eq_nil_or_concat (pieces spaced) with hspaced | ⟨ps', piece, hspaced⟩
  · simp [hspaced] at hends
  · rw [List.concat_eq_append] at hspaced
    obtain ⟨ps, hmasked⟩ := h.exists_last hspaced
    rw [hspaced] at hends htext hlegible
    rw [hmasked]
    rw [List.flatMap_append, List.flatMap_singleton] at hends htext ⊢
    -- A last character after an asterisk that stands outside of the spans.
    have hnear : ∀ e, headIs q.has piece.text = true → piece.fill spans = [e] → e ≠ '/' := by
      rintro e hhead hpiece rfl
      obtain ⟨front, hfront⟩ := hends
      have hlast : ps'.flatMap (Piece.fill spans) = front ++ ['*'] := by
        have hsplit : front ++ ['*'] ++ ['/'] = ps'.flatMap (Piece.fill spans) ++ ['/'] := by
          rw [← hpiece, ← hfront, hpiece, List.append_assoc]
          rfl
        exact (List.append_cancel_right hsplit).symm
      obtain ⟨ps'', rfl⟩ := hlegible.exists_last_star (by
        rw [hlast, Text.headIs_reverse_append_of_ne_nil (by simp)]
        rfl)
      cases hown : piece.text with
      | nil => simp [hown] at hhead
      | cons c cs =>
          rw [hown, headIs_cons] at hhead
          rw [← htext, hown, List.flatMap_append, List.append_assoc] at hapart
          exact Apart.not_both hapart ⟨star_iff.mpr rfl, hhead⟩
    cases piece with
    | char c =>
        obtain ⟨front, hfront⟩ := hends
        have hc : '/' = c := by
          have hlast := congrArg List.getLast? hfront
          simpa [Piece.fill] using hlast
        exact absurd hc.symm (hnear c (by rw [Piece.text, headIs_cons, ← hc, hslash]) rfl)
    | mark digits =>
        have hspan := @Legible.isSpan _ _ _ _ hlegible digits (by simp)
        by_cases hlong : 2 ≤ (spans digits).length
        · exact (List.suffix_of_suffix_length_le hends (List.suffix_append _ _) hlong).trans
            (List.suffix_append _ _)
        · obtain ⟨e, he⟩ := List.length_eq_one_iff.mp (by
            have hpositive := List.length_pos_iff.mpr hspan.ne_nil
            omega : (spans digits).length = 1)
          obtain ⟨front, hfront⟩ := hends
          have hc : '/' = e := by
            have hlast := congrArg List.getLast? hfront
            simpa [Piece.fill, he] using hlast
          rw [he, ← hc] at hspan
          exact absurd hc.symm (hnear e (hmark hspan.eq_javascript) he)

end Spaced

/-! ### The opener of a comment inside -/

/-- A span that ends in a slash directly before an asterisk: what comes of a regular expression that
is multiplied. -/
def SlashBeforeStar (spans : Text → Text) (ps : List Piece) : Prop :=
  ∃ digits, [.mark digits, .char '*'] <:+: ps ∧ headIs slash.has (spans digits).reverse = true

/-- Only regular expressions end in a slash. -/
theorem Legible.not_slashBeforeStar (h : Legible .cFamily mayEnd spans ps) :
    ¬SlashBeforeStar spans ps := by
  rintro ⟨digits, ⟨front, back, rfl⟩, hlast⟩
  rw [List.append_assoc] at h
  have hkind := h.closed_or_quiet (by simp)
  rcases hkind with ⟨_, opener, stop, inner, flags, hspan, hend, hcloses, _, hslash⟩ | hquiet
  · obtain ⟨rfl, ⟨_, hfamily⟩ | hquote⟩ := eq_slash_or_quote hend
    · cases hfamily
    · have hquotes : ∀ c ∈ Family.cFamily.quotes, c ≠ '/' ∧ slash.has c = false :=
        List.all_iff_forall_prop.mp (by decide)
      rw [hspan, hslash (hquotes stop hquote).1, List.append_nil,
        Text.headIs_reverse_cons hcloses.ne_nil, Text.headIs_reverse_of_getLast? hcloses.getLast?,
        (hquotes stop hquote).2] at hlast
      cases hlast
  · rw [Text.headIs_reverse_of_forall_false fun c hc => ?_] at hlast
    · cases hlast
    · rw [Bool.eq_false_iff, Ne, Comment.slash_iff]
      rintro rfl
      exact absurd (hquiet.quiet '/' hc) (by decide)

/-- Where no comment opens in the spans and none in the masked text, none does in the text that the
pieces make up. -/
theorem Legible.apart_fill (h : Legible family mayEnd spans ps)
    (htext : Apart slash signs (ps.flatMap Piece.text)) (hfree : ¬SlashBeforeStar spans ps)
    (hspans : ∀ digits, .mark digits ∈ ps → Apart slash star (spans digits)) :
    Apart slash star (ps.flatMap (Piece.fill spans)) := by
  have hlater : ∀ {piece : Piece} {ps : List Piece}, ¬SlashBeforeStar spans (piece :: ps) →
      ¬SlashBeforeStar spans ps := fun hfree ⟨digits, hinside, hlast⟩ =>
    hfree ⟨digits, hinside.trans (List.suffix_cons _ _).isInfix, hlast⟩
  -- After a span that closes or is quiet.
  have hspan : ∀ {digits : Text} {ps : List Piece}, Legible family mayEnd spans ps →
      ¬SlashBeforeStar spans (.mark digits :: ps) → Apart slash star (spans digits) →
      Apart slash star (ps.flatMap (Piece.fill spans)) →
      Apart slash star (spans digits ++ ps.flatMap (Piece.fill spans)) := by
    intro digits ps hrest hfree hown hothers
    refine hown.append hothers (or_iff_not_imp_left.mpr fun hlast => ?_)
    rw [Bool.not_eq_false] at hlast
    rw [Bool.eq_false_iff]
    intro hstar
    obtain ⟨ps', rfl⟩ := hrest.exists_of_headIs_star hstar
    exact hfree ⟨digits, ⟨[], ps', rfl⟩, hlast⟩
  induction h with
  | nil => exact Apart.nil
  | @char c ps _ hrest ih =>
      have htail : Apart slash signs (ps.flatMap Piece.text) :=
        htext.of_infix (List.suffix_append [c] _).isInfix
      have hnext := ih htail (hlater hfree) fun digits hmem =>
        hspans digits (List.mem_cons_of_mem _ hmem)
      rw [List.flatMap_cons, Piece.fill]
      refine (Apart.single c).append hnext (or_iff_not_imp_left.mpr fun hslash => ?_)
      rw [Bool.eq_false_iff]
      intro hstar
      obtain ⟨ps', rfl⟩ := hrest.exists_of_headIs_star hstar
      have hsign : signs.has '*' = true := by decide
      exact htext.not_first ⟨by simpa using hslash, hsign⟩
  | @closed digits ps _ hrest ih | @quiet digits ps _ hrest ih =>
      have htail : Apart slash signs (ps.flatMap Piece.text) :=
        htext.of_infix (List.suffix_append (Piece.mark digits).text _).isInfix
      exact hspan hrest hfree (hspans digits List.mem_cons_self)
        (ih htail (hlater hfree) fun digits hmem => hspans digits (List.mem_cons_of_mem _ hmem))
  | @unclosed digits =>
      rw [List.flatMap_singleton]
      exact hspans digits List.mem_cons_self

namespace Spaced

/-- Tidying takes no opener of a comment away. -/
theorem apart_code (h : Spaced family mayEnd spans masked spaced) (hmasked : Apart slash signs masked)
    (hfree : ¬SlashBeforeStar spans (pieces masked))
    (hspaced : Apart slash star ((pieces spaced).flatMap (Piece.fill spans))) :
    Apart slash star ((pieces masked).flatMap (Piece.fill spans)) := by
  rw [← text_pieces masked] at hmasked
  refine h.legible_masked.apart_fill hmasked hfree fun digits hmem => ?_
  have hmark : (Piece.mark digits).isSolid = true := rfl
  rw [mem_pieces_iff hmark, ← h.solid, ← mem_pieces_iff hmark] at hmem
  obtain ⟨front, back, hsplit⟩ := List.append_of_mem hmem
  refine hspaced.of_infix ⟨front.flatMap (Piece.fill spans), back.flatMap (Piece.fill spans), ?_⟩
  rw [hsplit, List.flatMap_append, List.flatMap_cons, List.append_assoc]
  rfl

/-! ### After a leading asterisk -/

/-- Tidied code begins with an asterisk exactly if the code does. -/
theorem headIs_star (h : Spaced family mayEnd spans masked spaced) :
    headIs star.has ((pieces spaced).flatMap (Piece.fill spans)) =
      headIs star.has ((pieces masked).flatMap (Piece.fill spans)) := by
  cases hmasked : pieces masked with
  | nil =>
      cases hspaced : pieces spaced with
      | nil => rfl
      | cons piece ps' =>
          obtain ⟨ps, hfirst, _⟩ := h.exists_first' hspaced
          cases hmasked.symm.trans hfirst
  | cons piece ps =>
      obtain ⟨ps', hspaced, _⟩ := h.exists_first hmasked
      rw [hspaced, List.flatMap_cons, List.flatMap_cons]
      cases piece with
      | char c => rfl
      | mark digits =>
          have hne := (h.legible_masked.isSpan (hmasked ▸ List.mem_cons_self)).ne_nil
          rw [Piece.fill, Text.headIs_append hne, Text.headIs_append hne]

/-- Nothing comes of nothing. -/
theorem eq_nil (h : Spaced family mayEnd spans masked spaced)
    (hnil : (pieces spaced).flatMap (Piece.fill spans) = []) :
    (pieces masked).flatMap (Piece.fill spans) = [] := by
  cases hmasked : pieces masked with
  | nil => rfl
  | cons piece ps =>
      obtain ⟨ps', hspaced, _⟩ := h.exists_first hmasked
      rw [hspaced, List.flatMap_cons, List.append_eq_nil_iff] at hnil
      cases piece with
      | char c => cases hnil.1
      | mark digits =>
          exact absurd hnil.1 (h.legible_masked.isSpan (hmasked ▸ List.mem_cons_self)).ne_nil

/-- Nothing but an asterisk becomes one alone. -/
theorem eq_lone_star (h : Spaced family mayEnd spans masked spaced)
    (hlone : (pieces spaced).flatMap (Piece.fill spans) = ['*']) :
    (pieces masked).flatMap (Piece.fill spans) = ['*'] := by
  obtain ⟨ps', hspaced, hnil⟩ := h.legible_spaced.exists_star hlone
  have hempty : ps' = [] := by
    cases ps' with
    | nil => rfl
    | cons piece ps' =>
        rw [List.flatMap_cons, List.append_eq_nil_iff] at hnil
        cases piece with
        | char c => cases hnil.1
        | mark digits =>
            have hspan := @Legible.isSpan _ _ _ _ h.legible_spaced digits (by simp [hspaced])
            exact absurd hnil.1 hspan.ne_nil
  rw [hempty] at hspaced
  obtain ⟨ps, hfirst, hnone⟩ := h.exists_first' hspaced
  obtain ⟨front, hlast⟩ := @exists_last _ _ _ _ _ h (.char '*') [] hspaced
  have hsolid : (Piece.char '*').isSolid = true := by decide
  cases front with
  | nil =>
      rw [hlast]
      rfl
  | cons piece front =>
      rw [hfirst, List.cons_append, List.cons.injEq] at hlast
      rw [hlast.2, List.filter_append, List.filter_cons_of_pos hsolid] at hnone
      simp at hnone

/-- The piece after a leading asterisk is the first one after it that is no blank. -/
theorem exists_second (h : Spaced family mayEnd spans masked spaced) {d : Char} {t : Text}
    (hd : isBlank d = false) (hcode : (pieces masked).flatMap (Piece.fill spans) = '*' :: d :: t) :
    ∃ piece ps ps', pieces masked = .char '*' :: piece :: ps ∧ pieces spaced = .char '*' :: ps' ∧
      ps'.filter Piece.isSolid = piece :: ps.filter Piece.isSolid ∧
      (piece = .char d ∧ d ∉ family.quotes ∨ ∃ digits, piece = .mark digits) ∧
      (piece.fill spans).head? = some d := by
  obtain ⟨rest, hmasked, hrest⟩ := h.legible_masked.exists_star hcode
  obtain ⟨ps', hspaced, hfilter⟩ := h.exists_first hmasked
  have hlegible := h.legible_masked
  rw [hmasked] at hlegible
  have hlegible := @Legible.of_append _ _ _ [.char '*'] rest hlegible
  cases rest with
  | nil => cases hrest
  | cons piece ps =>
      rw [List.flatMap_cons] at hrest
      cases piece with
      | char c =>
          obtain ⟨rfl, _⟩ := List.cons.inj hrest
          rw [List.filter_cons_of_pos (by simp [Piece.isSolid, hd])] at hfilter
          cases hlegible with
          | char hquote => exact ⟨_, ps, ps', hmasked, hspaced, hfilter, .inl ⟨rfl, hquote⟩, rfl⟩
      | mark digits =>
          have hne := (hlegible.isSpan List.mem_cons_self).ne_nil
          refine ⟨_, ps, ps', hmasked, hspaced, hfilter, .inr ⟨digits, rfl⟩, ?_⟩
          rw [Piece.fill] at hrest ⊢
          rw [← List.head?_append_of_ne_nil _ hne, hrest]
          rfl

end Spaced

end SourceLayout.Literal
