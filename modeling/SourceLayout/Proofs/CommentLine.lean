import SourceLayout.Proofs.Json.Spacing
import SourceLayout.Proofs.Literal.Edges
import SourceLayout.Proofs.Spacing.Hug

/-!
# Lines of a block comment

Whether a line belongs to a block comment is asked of it as it was written and once more when it
has been tidied. A line that does still does after it, for only blanks change in it. Code becomes such
a line in two ways: a space after a leading asterisk makes it a continuation line, which the C family
escapes where the asterisk dereferences an operand; and a regular expression that is multiplied
loses what looked like the opener of the comment that the line ends.
-/

namespace SourceLayout

open Literal (star markOpen)

namespace Spacing

/-- What the rules keep an asterisk away from. -/
def aloof : Family → WordClass
  | .javascript => WordClass.plain.adding (markOpen :: "/([.!~$".toList)
      (List.all_iff_forall_prop.mp (by decide))
  | _ => .only ['/', '*']

theorem aloof_slash {family : Family} (hcode : family = .javascript ∨ family = .cFamily) :
    (aloof family).has '/' = true := by
  rcases hcode with rfl | rfl <;> decide

theorem aloof_markOpen {family : Family} (hfamily : family = .javascript) :
    (aloof family).has markOpen = true := by
  subst hfamily
  decide +kernel

theorem aloof_operand {family : Family} (hfamily : family = .javascript) {c : Char}
    (hoperand : startsOperand c = true) : (aloof family).has c = true := by
  subst hfamily
  rw [← operand_iff] at hoperand
  simp only [operand, aloof, WordClass.adding, Bool.or_eq_true, List.contains_iff_mem,
    List.mem_cons] at hoperand ⊢
  rcases hoperand with hplain | hopen | hsign
  · exact .inl hplain
  · exact .inr (.inl hopen)
  · exact .inr (.inr (List.mem_cons_of_mem _ hsign))

theorem apart_star {family : Family} (hcode : family = .javascript ∨ family = .cFamily)
    (language : Option Text) (t : Text) :
    Apart star (aloof family) (applyAll (rules family language) t) := by
  have hsingle : ∀ operators : List String, ∀ c d, star.has c = true →
      (aloof family).has d = true →
        [c] ∈ operatorChoices operators ∨ [d] ∈ operatorChoices operators := by
    intro operators c d hc _
    rw [Literal.star_iff.mp hc]
    exact .inl (List.mem_append_right _ (by decide))
  rcases hcode with rfl | rfl
  · exact apart_javascriptRules ⟨by decide, hsingle _⟩ (by decide +kernel) t
  · exact apart_cRules ⟨by decide, hsingle _⟩ (by decide +kernel)
      (@only_of_startsOperand ['/', '*'] (by decide)) language t

/-- The blanks that the rules leave are spaces. -/
theorem eq_space_of_mem_rules {family : Family} {language : Option Text} {t : Text} {c : Char}
    (hc : c ∈ applyAll (rules family language) t) (hblank : isBlank c = true) : c = ' ' := by
  obtain ⟨first, last, hrules, hdeletes⟩ := exists_rules_eq family language
  have hsub : ∀ s : Text, (applyAll last s).Sublist s := fun s =>
    applyAll_induct (motive := (List.Sublist · s))
      (fun rule hrule t ht => (Rule.apply_sublist (hdeletes rule hrule) t).trans ht)
      (List.Sublist.refl s)
  rw [hrules, applyAll_append, applyAll_cons] at hc
  exact Json.eq_space_of_mem_collapse ((hsub _).subset hc) hblank

end Spacing

namespace Comment

open Spacing (Apart)
open Text (Trimmed tokens)

theorem has_opener_eq_false_iff (t : Text) : Text.has ['/', '*'] t = false ↔ Apart slash star t := by
  rw [← Bool.not_eq_true, Line.has_iff_occurs]
  constructor
  · intro hnone
    have hpairs : t.IsChain fun c d => [c, d] <:+: t := List.isChain_isInfix t
    refine hpairs.imp fun c d hpair => ?_
    rw [slash_iff, Literal.star_iff]
    rintro ⟨rfl, rfl⟩
    exact hnone hpair
  · rintro hapart ⟨left, right, rfl⟩
    rw [List.append_assoc] at hapart
    exact hapart.not_both ⟨slash_iff.mpr rfl, Literal.star_iff.mpr rfl⟩

theorem isBlockLine_iff {t : Text} : isBlockLine t = true ↔
    ['/', '*'] <+: t ∨ ['*', '/'] <+: t ∨ ['*', ' '] <+: t ∨ t = ['*'] ∨
      ['*', '/'] <:+ t ∧ Apart slash star t := by
  simp only [isBlockLine, Text.startsWith, Text.endsWith, Bool.or_eq_true, Bool.and_eq_true,
    Bool.not_eq_true', List.isPrefixOf_iff_prefix, List.isSuffixOf_iff_suffix, beq_iff_eq, or_assoc,
    has_opener_eq_false_iff]

theorem isBlockLine_of_opener {t : Text} (hstart : ['/', '*'] <+: t) : isBlockLine t = true :=
  isBlockLine_iff.mpr (.inl hstart)

theorem isBlockLine_of_spaced {t : Text} (hstart : ['*', ' '] <+: t) : isBlockLine t = true :=
  isBlockLine_iff.mpr (.inr (.inr (.inl hstart)))

theorem isBlockLine_of_closer {t : Text} (hends : ['*', '/'] <:+ t) (hapart : Apart slash star t) :
    isBlockLine t = true :=
  isBlockLine_iff.mpr (.inr (.inr (.inr (.inr ⟨hends, hapart⟩))))

/-! ### The normal form -/

theorem prefix_normalize_iff {word t : Text} (hne : word ≠ []) (hword : word.all signs.has = true)
    (ht : Trimmed t) : word <+: normalize t ↔ word <+: t := by
  have htokens := @tokens_normalize signs t
  rw [← List.isPrefixOf_iff_prefix, ← List.isPrefixOf_iff_prefix]
  exact ⟨Line.startsWith_of_tokens hne hword ht htokens,
    Line.startsWith_of_tokens hne hword (trimmed_normalize t) htokens.symm⟩

theorem suffix_normalize_iff {word t : Text} (hne : word ≠ []) (hword : word.all signs.has = true)
    (ht : Trimmed t) : word <:+ normalize t ↔ word <:+ t := by
  have htokens := @tokens_normalize signs t
  rw [← List.isSuffixOf_iff_suffix, ← List.isSuffixOf_iff_suffix]
  exact ⟨Line.endsWith_of_tokens hne hword ht htokens,
    Line.endsWith_of_tokens hne hword (trimmed_normalize t) htokens.symm⟩

theorem apart_normalize_iff (t : Text) :
    Apart slash star (normalize t) ↔ Apart slash star t :=
  ⟨Spacing.apart_congr (tokens_normalize t).symm, Spacing.apart_congr (tokens_normalize t)⟩

theorem head?_squeezeRuns_space (t : Text) : (squeezeRuns (' ' :: t)).head? = some ' ' := by
  generalize hspace : ' ' :: t = s
  have hhead : ∃ c rest, s = c :: rest ∧ isBlank c = true ∧ (c = ' ' ∨ headIs isBlank rest = true) :=
    ⟨' ', t, hspace.symm, by decide, .inl rfl⟩
  clear hspace
  fun_induction squeezeRuns s with
  | case1 => simp at hhead
  | case2 c =>
      obtain ⟨c, rest, heq, _, hc⟩ := hhead
      obtain ⟨rfl, rfl⟩ := List.cons.inj heq
      simpa using hc
  | case3 c d hblanks e cs he ih =>
      rw [Bool.and_eq_true] at hblanks
      exact ih ⟨d, e :: cs, rfl, hblanks.2, .inr he⟩
  | case4 | case5 => rfl
  | case6 c d cs hblanks ih =>
      obtain ⟨c, rest, heq, hc, hnext⟩ := hhead
      obtain ⟨rfl, rfl⟩ := List.cons.inj heq
      rcases hnext with rfl | hnext
      · rfl
      · rw [headIs_cons] at hnext
        simp [hc, hnext] at hblanks

/-- A line of a block comment is one in its normal form. -/
theorem isBlockLine_normalize {t : Text} (ht : Trimmed t) (hblock : isBlockLine t = true) :
    isBlockLine (normalize t) = true := by
  rw [isBlockLine_iff] at hblock ⊢
  rcases hblock with hstart | hstart | ⟨rest, rfl⟩ | rfl | ⟨hends, hapart⟩
  · exact .inl ((prefix_normalize_iff (by simp) (by decide) ht).mpr hstart)
  · exact .inr (.inl ((prefix_normalize_iff (by simp) (by decide) ht).mpr hstart))
  · refine .inr (.inr (.inl ?_))
    have hnormal : normalize (['*', ' '] ++ rest) = '*' :: squeezeRuns (' ' :: rest) := by
      rw [normalize, ht.trim_eq]
      rfl
    obtain ⟨rest', hrest⟩ := List.head?_eq_some_iff.mp (head?_squeezeRuns_space rest)
    rw [hnormal, hrest]
    exact ⟨rest', rfl⟩
  · exact .inr (.inr (.inr (.inl rfl)))
  · exact .inr (.inr (.inr (.inr ⟨(suffix_normalize_iff (by simp) (by decide) ht).mpr hends,
      (apart_normalize_iff t).mpr hapart⟩)))

theorem trimmed_split_comment {family : Family} {line : Text} (h : Trimmed line) :
    Trimmed (split family line).comment := by
  by_cases hcomment : (split family line).comment = []
  · rw [hcomment]
    exact Trimmed.nil
  · obtain ⟨gap, _, hline⟩ := split_eq family line
    refine ⟨?_, Text.headIs_reverse_of_suffix ⟨_, hline.symm⟩ h.last⟩
    have hopens := opensComment_split_comment hcomment
    rw [opensComment_iff] at hopens
    obtain ⟨marker, hmarker, rest, hrest⟩ := hopens
    have hmarkers : ∀ marker ∈ markers family, marker ≠ [] ∧ headIs isBlank marker = false := by
      cases family <;> decide
    rw [← hrest, Text.headIs_append (hmarkers marker hmarker).1]
    exact (hmarkers marker hmarker).2

theorem exists_of_opensComment {family : Family} (hcode : family = .javascript ∨ family = .cFamily)
    {t : Text} (hopens : family.opensComment t = true) : ∃ c rest, t = '/' :: c :: rest := by
  rw [opensComment_iff] at hopens
  obtain ⟨marker, hmarker, rest, rfl⟩ := hopens
  have hmarkers : ∀ marker ∈ markers family, ∃ c, marker = ['/', c] := by
    rcases hcode with rfl | rfl <;> simp [markers]
  obtain ⟨c, rfl⟩ := hmarkers marker hmarker
  exact ⟨c, rest, rfl⟩

theorem headIs_star_of_opensComment {family : Family}
    (hcode : family = .javascript ∨ family = .cFamily) {t : Text}
    (hopens : family.opensComment t = true) : headIs star.has t = false := by
  obtain ⟨c, rest, rfl⟩ := exists_of_opensComment hcode hopens
  rfl

/-- A comment starts with no asterisk, so only its own marks make it a line of a block comment. -/
theorem isBlockLine_normalize_comment {family : Family}
    (hcode : family = .javascript ∨ family = .cFamily) {t : Text} (ht : Trimmed t)
    (hopens : family.opensComment t = true) : isBlockLine (normalize t) = isBlockLine t := by
  obtain ⟨c, rest, hrest⟩ := exists_of_opensComment hcode (opensComment_normalize hcode hopens)
  refine Bool.eq_iff_iff.mpr ⟨fun hblock => ?_, isBlockLine_normalize ht⟩
  rcases isBlockLine_iff.mp hblock with hstart | hstart | hstart | heq | ⟨hends, hapart⟩
  · exact isBlockLine_of_opener ((prefix_normalize_iff (by simp) (by decide) ht).mp hstart)
  · simp [hrest] at hstart
  · simp [hrest] at hstart
  · simp [hrest] at heq
  · exact isBlockLine_of_closer ((suffix_normalize_iff (by simp) (by decide) ht).mp hends)
      ((apart_normalize_iff t).mp hapart)

theorem split_code_of_comment_nil {family : Family} {line : Text}
    (hcomment : (split family line).comment = []) : (split family line).code = line := by
  rw [split] at hcomment ⊢
  split
  next => rfl
  next place hstart =>
      have hplace := lt_length_of_opensComment (opensComment_of_startFrom hstart)
      simp only [hstart, List.drop_eq_nil_iff] at hcomment
      omega

/-- Two characters with neither a blank nor a comment between them are both code. -/
theorem exists_split_code {family : Family} (hcode : family = .javascript ∨ family = .cFamily)
    {line t : Text} {c d : Char} (hline : line = c :: d :: t) (hc : isBlank c = false ∧ c ≠ '/')
    (hd : isBlank d = false ∧ d ≠ '/') : ∃ rest, (split family line).code = c :: d :: rest := by
  obtain ⟨gap, hgap, hsplit⟩ := split_eq family line
  have htail : ∀ e rest, gap ++ (split family line).comment = e :: rest →
      isBlank e = true ∨ e = '/' := by
    intro e rest htail
    cases gap with
    | cons b bs =>
        obtain ⟨rfl, _⟩ := List.cons.inj htail
        rw [List.all_cons, Bool.and_eq_true] at hgap
        exact .inl hgap.1
    | nil =>
        rw [List.nil_append] at htail
        have hopens := @opensComment_split_comment family line (by simp [htail])
        obtain ⟨_, _, hopener⟩ := exists_of_opensComment hcode hopens
        rw [htail] at hopener
        exact .inr (List.cons.inj hopener).1
  have hnot : ∀ e rest, (isBlank e = false ∧ e ≠ '/') →
      gap ++ (split family line).comment ≠ e :: rest := by
    rintro e rest ⟨hblank, hslash⟩ heq
    rcases htail e rest heq with h | h
    · simp [h] at hblank
    · exact hslash h
  rw [List.append_assoc] at hsplit
  generalize gap ++ (split family line).comment = others at hsplit hnot
  generalize (split family line).code = code at hsplit
  rw [hline] at hsplit
  match code, hsplit with
  | [], hsplit => exact absurd hsplit.symm (hnot c _ hc)
  | [_], hsplit => exact absurd (List.cons.inj hsplit).2.symm (hnot d _ hd)
  | e :: f :: rest, hsplit =>
      simp only [List.cons_append, List.cons.injEq] at hsplit
      exact ⟨rest, by rw [hsplit.1, hsplit.2.1]⟩

end Comment

namespace Line

open Comment (isBlockLine isBlockLine_iff isBlockLine_of_closer isBlockLine_of_opener
  isBlockLine_of_spaced normalize opensComment_normalize slash signs split)
open Literal (Piece SlashBeforeStar Spaced mask numberLimit pieces spanOf)
open Spacing (Apart aloof aloof_markOpen aloof_operand aloof_slash)
open Text (Trimmed)

theorem assemble_eq_append {code : Text} (hne : code ≠ []) (comment : Text) :
    ∃ tail, assemble code comment = code ++ tail ∧ (∀ c ∈ tail.head?, c = ' ') ∧
      (tail = [] → comment = []) := by
  rw [assemble]
  split
  next hempty => exact ⟨[], by simp, by simp, fun _ => List.isEmpty_iff.mp hempty⟩
  next =>
      rw [if_neg (by simpa using hne)]
      exact ⟨_, rfl, by simp, by simp⟩

theorem prefix_assemble {word code : Text} (hne : word ≠ []) (hstart : word <+: code)
    (comment : Text) : word <+: assemble code comment := by
  obtain ⟨tail, htail, _⟩ := assemble_eq_append (hstart.ne_nil hne) comment
  exact htail ▸ hstart.trans (List.prefix_append code tail)

theorem exists_assemble_comment (code : Text) {comment : Text} (hne : comment ≠ []) :
    ∃ front, assemble code comment = front ++ normalize comment ∧ code <+: front := by
  rw [assemble, if_neg (by simpa using hne)]
  split
  next hempty => exact ⟨[], rfl, by simp [List.isEmpty_iff.mp hempty]⟩
  next => exact ⟨code ++ [' '], by simp, List.prefix_append code [' ']⟩

/-- A line without code is its comment. -/
theorem isBlockLine_assemble_nil {family : Family}
    (hcode : family = .javascript ∨ family = .cFamily) {line : Text} (hline : Trimmed line)
    (hnil : (split family line).code = []) (hblock : isBlockLine line = false) :
    isBlockLine (assemble [] (split family line).comment) = false := by
  by_cases hcomment : (split family line).comment = []
  · rw [hcomment]
    rfl
  · obtain ⟨gap, hgap, hsplit⟩ := Comment.split_eq family line
    rw [hnil, List.nil_append] at hsplit
    obtain rfl : gap = [] := Text.eq_nil_of_headIs hgap (hsplit ▸ hline.head)
    have hopens := Comment.opensComment_split_comment hcomment
    have htrim := @Comment.trimmed_split_comment family line hline
    have hown := Comment.isBlockLine_normalize_comment hcode htrim hopens
    rw [List.nil_append] at hsplit
    rw [assemble, if_neg (by simpa using hcomment), List.isEmpty_nil, if_pos rfl, hown, ← hsplit,
      hblock]

section Assemble

variable {family : Family} {mayEnd : Bool} {spans : Text → Text} {masked spaced line out : Text}

variable (hline : Trimmed line) (h : Spaced family mayEnd spans masked spaced)
variable (hfill : (split family line).code = (pieces masked).flatMap (Piece.fill spans))
variable (hout : out = (pieces spaced).flatMap (Piece.fill spans))

include h hfill hout

/-- With a space or nothing after it, tidied code starts with no sign of a comment if the line is no
line of a block comment. -/
theorem not_started (hcode : family = .javascript ∨ family = .cFamily)
    (hspaced : Apart slash signs spaced) (hstar : Apart star (aloof family) spaced)
    (hblock : isBlockLine line = false) (hne : out ≠ []) {tail : Text}
    (htail : ∀ c ∈ tail.head?, c = ' ') :
    ¬(['/', '*'] <+: out ++ tail) ∧ ¬(['*', '/'] <+: out ++ tail) := by
  have hwithin : ∀ c d, d ≠ ' ' → [c, d] <+: out ++ tail → [c, d] <+: out := by
    rintro c d hd ⟨rest, hrest⟩
    match out, hne with
    | [_], _ =>
        have heq : [d] ++ rest = tail := (List.cons.inj hrest).2
        exact absurd (htail d (by rw [← heq]; rfl)) hd
    | _ :: _ :: ds, _ =>
        obtain ⟨rfl, heq⟩ := List.cons.inj hrest
        obtain ⟨rfl, _⟩ := List.cons.inj heq
        exact ⟨ds, rfl⟩
  constructor
  · intro hstart
    have hcode := h.startsWith_opener hspaced (hout ▸ hwithin _ _ (by decide) hstart)
    obtain ⟨gap, _, hsplit⟩ := Comment.split_eq family line
    have hfront : (split family line).code <+: line :=
      ⟨gap ++ (split family line).comment, by rw [← List.append_assoc, ← hsplit]⟩
    rw [← hfill] at hcode
    rw [isBlockLine_of_opener (hcode.trans hfront)] at hblock
    cases hblock
  · intro hstart
    exact h.not_startsWith_closer (aloof_slash hcode) aloof_markOpen hstar
      (hout ▸ hwithin _ _ (by decide) hstart)

/-- Tidied code with its comment starts with an asterisk only if the line does. -/
theorem not_headIs_star (hcode : family = .javascript ∨ family = .cFamily)
    (hstar : headIs star.has line = false) :
    headIs star.has (assemble out (split family line).comment) = false := by
  by_cases hne : out = []
  · rw [assemble, hne]
    split
    next => rfl
    next hcomment =>
        have hopens := Comment.opensComment_normalize hcode
          (Comment.opensComment_split_comment (by simpa using hcomment))
        rw [List.isEmpty_nil, if_pos rfl]
        exact Comment.headIs_star_of_opensComment hcode hopens
  · obtain ⟨tail, htail, _⟩ := assemble_eq_append hne (split family line).comment
    rw [htail, Text.headIs_append hne, hout, h.headIs_star, ← hfill]
    by_cases hnil : (split family line).code = []
    · rw [hnil]
      rfl
    · obtain ⟨gap, _, hsplit⟩ := Comment.split_eq family line
      rwa [← Text.headIs_append hnil (gap ++ (split family line).comment), ← List.append_assoc,
        ← hsplit]

include hline

/-- Tidied code with its comment ends like no line of a block comment if the line is none. -/
theorem not_ended (hcode : family = .javascript ∨ family = .cFamily)
    (hmasked : Apart slash signs masked) (hstar : Apart star (aloof family) spaced)
    (hfree : ['*', '/'] <:+ line → ¬SlashBeforeStar spans (pieces masked))
    (hblock : isBlockLine line = false) :
    ¬(['*', '/'] <:+ assemble out (split family line).comment ∧
      Apart slash star (assemble out (split family line).comment)) := by
  rintro ⟨hends, hapart⟩
  have hnone : ['*', '/'] <:+ line → ¬Apart slash star line := fun hends hapart => by
    rw [isBlockLine_of_closer hends hapart] at hblock
    cases hblock
  have hback : ['*', '/'] <:+ line → Apart slash star out → Apart slash star (split family line).code :=
    fun hends hapart => by
      rw [hout] at hapart
      rw [hfill]
      exact h.apart_code hmasked (hfree hends) hapart
  by_cases hcomment : (split family line).comment = []
  · have hwhole := Comment.split_code_of_comment_nil hcomment
    rw [hcomment] at hends hapart
    have hends' : ['*', '/'] <:+ line := by
      rw [← hwhole, hfill]
      exact h.endsWith_closer (aloof_slash hcode) aloof_markOpen hstar (hout ▸ hends)
    have hcodeApart := hback hends' hapart
    rw [hwhole] at hcodeApart
    exact hnone hends' hcodeApart
  · have hopens := Comment.opensComment_split_comment hcomment
    have hlong : 2 ≤ (normalize (split family line).comment).length := by
      obtain ⟨c, rest, hrest⟩ :=
        Comment.exists_of_opensComment hcode (Comment.opensComment_normalize hcode hopens)
      simp [hrest]
    obtain ⟨front, hfront, hinside⟩ := exists_assemble_comment out hcomment
    rw [hfront] at hends hapart
    have htrim := @Comment.trimmed_split_comment family line hline
    have hcommentEnds : ['*', '/'] <:+ (split family line).comment :=
      (Comment.suffix_normalize_iff (by simp) (by decide) htrim).mp
        (List.suffix_of_suffix_length_le hends (List.suffix_append _ _) hlong)
    have hcommentApart := (Comment.apart_normalize_iff _).mp
      (hapart.of_infix (List.suffix_append _ _).isInfix)
    obtain ⟨gap, hgap, hsplit⟩ := Comment.split_eq family line
    have hends' : ['*', '/'] <:+ line := hcommentEnds.trans ⟨_, hsplit.symm⟩
    have hcodeApart := hback hends'
      (hapart.of_infix (hinside.trans (List.prefix_append _ _)).isInfix)
    refine hnone hends' (hsplit ▸ ?_)
    exact (hcodeApart.append (Apart.of_blanks hgap) (.inr (Text.headIs_of_blanks hgap))).append
      hcommentApart (.inr (Comment.headIs_star_of_opensComment hcode hopens))

/-- Tidied code with its comment is a line of a block comment only if the line is one, or it starts
with an asterisk and a space. -/
theorem block_or_space (hcode : family = .javascript ∨ family = .cFamily)
    (hmasked : Apart slash signs masked) (hspaced : Apart slash signs spaced)
    (hstar : Apart star (aloof family) spaced)
    (hfree : ['*', '/'] <:+ line → ¬SlashBeforeStar spans (pieces masked))
    (hblock : isBlockLine line = false)
    (htidied : isBlockLine (assemble out (split family line).comment) = true) :
    ['*', ' '] <+: assemble out (split family line).comment := by
  have hended := not_ended hline h hfill hout hcode hmasked hstar hfree hblock
  by_cases hne : out = []
  · have hnil : (split family line).code = [] := by
      rw [hfill, h.eq_nil (hout.symm.trans hne)]
    rw [hne, isBlockLine_assemble_nil hcode hline hnil hblock] at htidied
    cases htidied
  · obtain ⟨tail, htail, hspace, hlone⟩ := assemble_eq_append hne (split family line).comment
    obtain ⟨hopener, hcloser⟩ :=
      not_started h hfill hout hcode hspaced hstar hblock hne hspace
    rw [htail] at hended htidied ⊢
    rcases isBlockLine_iff.mp htidied with hstart | hstart | hstart | heq | hends
    · exact absurd hstart hopener
    · exact absurd hstart hcloser
    · exact hstart
    · -- The asterisk alone is a line of a block comment.
      obtain ⟨hstarOnly, hnone⟩ :=
        (List.append_eq_singleton_iff.mp heq).resolve_left fun hempty => hne hempty.1
      have hwhole := Comment.split_code_of_comment_nil (hlone hnone)
      rw [hfill, h.eq_lone_star (hout.symm.trans hstarOnly)] at hwhole
      rw [← hwhole] at hblock
      cases hblock
    · exact absurd hends hended

end Assemble

/-! ### A leading asterisk -/

/-- What an operator without left operand may stand before: an operand or a quoted literal. -/
def startsTerm (family : Family) (c : Char) : Bool :=
  Spacing.startsOperand c || family.quotes.contains c

section Lead

variable {family : Family} {mayEnd : Bool} {spans : Text → Text} {masked spaced t : Text} {d : Char}
variable (h : Spaced family mayEnd spans masked spaced) (hd : isBlank d = false)
variable (hcode : (pieces masked).flatMap (Piece.fill spans) = '*' :: d :: t)

include h hd hcode

/-- A dereference is one in the tidied code. -/
theorem exists_dereference (hterm : startsTerm family d = true)
    (hrules : Spacing.Dereferences masked → Spacing.Dereferences spaced) :
    ∃ rest, (pieces spaced).flatMap (Piece.fill spans) = '*' :: d :: rest := by
  obtain ⟨piece, ps, ps', hmasked, hspaced, hfilter, hpiece, hhead⟩ := h.exists_second hd hcode
  have hbefore : Spacing.Dereferences masked := by
    refine ⟨piece.text ++ ps.flatMap Piece.text, ?_, ?_⟩
    · rw [← Literal.text_pieces masked, hmasked]
      rfl
    · rcases hpiece with ⟨rfl, hquote⟩ | ⟨digits, rfl⟩
      · rw [startsTerm, Bool.or_eq_true, List.contains_iff_mem, or_iff_left hquote] at hterm
        exact Spacing.operand_iff.mpr hterm
      · exact Spacing.operand_iff.mpr (by decide +kernel)
  obtain ⟨u, hu, hoperand⟩ := hrules hbefore
  have htext := Literal.text_pieces spaced
  rw [hspaced, hu] at htext
  have hrest : ps'.flatMap Piece.text = u := (List.cons.inj htext).2
  cases ps' with
  | nil => cases hfilter
  | cons first ps' =>
      have hsolid : first.isSolid = true := by
        cases first with
        | mark digits => rfl
        | char c =>
            rw [← hrest] at hoperand
            have hc := Spacing.operand.isBlank_eq_false c hoperand
            simp [Piece.isSolid, hc]
      rw [List.filter_cons_of_pos hsolid, List.cons.injEq] at hfilter
      obtain ⟨rest, hfill⟩ := List.head?_eq_some_iff.mp hhead
      rw [hspaced, List.flatMap_cons, List.flatMap_cons, hfilter.1, hfill]
      exact ⟨_, rfl⟩

/-- An asterisk that must not touch what comes after it gets a space. -/
theorem space_after_star {q : WordClass} (hapart : Apart star q spaced)
    (hchar : d ∉ family.quotes → q.has d = true)
    (hmark : star.has d = false → q.has markOpen = true)
    (hspaces : ∀ c ∈ spaced, isBlank c = true → c = ' ') :
    ['*', ' '] <+: (pieces spaced).flatMap (Piece.fill spans) := by
  obtain ⟨piece, ps, ps', hmasked, hspaced, hfilter, hpiece, hhead⟩ := h.exists_second hd hcode
  have htext := Literal.text_pieces spaced
  rw [hspaced] at htext ⊢
  cases ps' with
  | nil => cases hfilter
  | cons first ps' =>
      cases hsolid : first.isSolid with
      | false =>
          cases first with
          | mark digits => cases hsolid
          | char c =>
              have hblank : isBlank c = true := by simpa [Piece.isSolid] using hsolid
              obtain rfl := hspaces c (by rw [← htext]; simp [Piece.text]) hblank
              exact ⟨_, rfl⟩
      | true =>
          rw [List.filter_cons_of_pos hsolid, List.cons.injEq] at hfilter
          have hnear : headIs q.has piece.text = true := by
            rcases hpiece with ⟨rfl, hquote⟩ | ⟨digits, rfl⟩
            · exact hchar hquote
            · refine hmark ?_
              have hspan := @Literal.Legible.isSpan _ _ _ _ h.legible_masked digits
                (by simp [hmasked])
              obtain ⟨rest, hfill⟩ := List.head?_eq_some_iff.mp hhead
              have hfirst : headIs star.has ((Piece.mark digits).fill spans) = false := hspan.head
              rwa [hfill] at hfirst
          rw [← htext, hfilter.1] at hapart
          rw [Literal.Spaced.headIs_text_eq_false hapart] at hnear
          cases hnear

end Lead

/-! ### Tidied lines -/

/-- Whether a line ends like a block comment, with an opener only where a regular expression ends
and an asterisk multiplies it. -/
def HidesOpener (family : Family) (language : Option Text) (line : Text) : Prop :=
  let masked := mask family language (split family line).code
  ['*', '/'] <:+ line ∧ SlashBeforeStar (spanOf masked.literals) (pieces masked.text)

/-- What comes of a line that is no line of a block comment. -/
structure LeavesCode (family : Family) (language : Option Text) (line out : Text) : Prop where
  /-- Nothing but an asterisk and a space at its start makes it a line of a block comment. -/
  fresh : ¬HidesOpener family language line → isBlockLine out = out.startsWith ['*', ' ']
  star : headIs star.has line = false → headIs star.has out = false
  dereference : family = .cFamily → ∀ d t, line = '*' :: d :: t → startsTerm family d = true →
    isBlockLine out = false
  twice : family = .cFamily → ∀ t, line = '*' :: '*' :: t → isBlockLine out = true
  product : family = .javascript → ∀ d t, line = '*' :: d :: t → startsTerm family d = true →
    isBlockLine out = true

theorem startsTerm_solid {family : Family} {d : Char} (hterm : startsTerm family d = true) :
    isBlank d = false ∧ d ≠ '/' := by
  rw [startsTerm, Bool.or_eq_true, ← Spacing.operand_iff, List.contains_iff_mem] at hterm
  rcases hterm with hoperand | hquote
  · refine ⟨Spacing.operand.isBlank_eq_false d hoperand, ?_⟩
    rintro rfl
    exact absurd hoperand (by decide)
  · have hquotes : ∀ c ∈ family.quotes, isBlank c = false ∧ c ≠ '/' :=
      List.all_iff_forall_prop.mp (by cases family <;> decide)
    exact hquotes d hquote

theorem not_hidesOpener (language : Option Text) {line : Text} (hline : Trimmed line)
    (hplain : markOpen ∉ line) (hlength : line.length ≤ numberLimit) :
    ¬HidesOpener .cFamily language line := by
  obtain ⟨hspaced, _⟩ := spaced_mask_split (.inr rfl) language hline hplain hlength
  exact fun hhides => hspaced.legible_masked.not_slashBeforeStar hhides.2

theorem exists_leavesCode {family : Family} (hcode : family = .javascript ∨ family = .cFamily)
    (language : Option Text) {line : Text} (hline : Trimmed line) (hplain : markOpen ∉ line)
    (hlength : line.length ≤ numberLimit) (hblock : isBlockLine line = false) :
    ∃ out, tidyCode family language (split family line).code = .ok out ∧
      LeavesCode family language line (assemble out (split family line).comment) := by
  have hnone := Comment.start?_split_code family line
  obtain ⟨hspaced, hfill, htidy⟩ := spaced_mask_split hcode language hline hplain hlength
  have hmaskedApart := Comment.apart_mask hcode language hnone
  have hspacedApart := Spacing.apart_signs hcode language
    (mask family language (split family line).code).text
  have hstarApart := Spacing.apart_star hcode language
    (mask family language (split family line).code).text
  have hspaces := @Spacing.eq_space_of_mem_rules family language
    (mask family language (split family line).code).text
  have hfresh (hfree : ¬HidesOpener family language line) := block_or_space hline hspaced hfill rfl
    hcode hmaskedApart hspacedApart hstarApart (fun hends hslash => hfree ⟨hends, hslash⟩) hblock
  have hnew : ∀ {out : Text}, ['*', ' '] <+: out →
      isBlockLine (assemble out (split family line).comment) = true := fun hout =>
    isBlockLine_of_spaced (prefix_assemble (by simp) hout _)
  refine ⟨_, htidy, ?fresh, ?star, ?dereference, ?twice, ?product⟩
  case fresh =>
    intro hfree
    rw [Bool.eq_iff_iff, Text.startsWith, List.isPrefixOf_iff_prefix]
    exact ⟨hfresh hfree, isBlockLine_of_spaced⟩
  case star => exact not_headIs_star hspaced hfill rfl hcode
  case dereference =>
    rintro rfl d t hlead hterm
    obtain ⟨hblank, hslash⟩ := startsTerm_solid hterm
    obtain ⟨_, hrest⟩ := Comment.exists_split_code hcode hlead (by decide) ⟨hblank, hslash⟩
    obtain ⟨_, hout⟩ := exists_dereference hspaced hblank (hfill.symm.trans hrest) hterm
      (Spacing.dereferences_cRules language)
    rw [Bool.eq_false_iff]
    intro hnew
    have hstart := hfresh (not_hidesOpener language hline hplain hlength) hnew
    have hown := @prefix_assemble ['*', d] _ (by simp) ⟨_, hout.symm⟩
      (split .cFamily line).comment
    have hspace := List.prefix_of_prefix_length_le hstart hown (Nat.le_refl _)
    obtain rfl : ' ' = d := by simpa using hspace
    cases hblank
  case twice =>
    rintro rfl t hlead
    have hsign : isBlank '*' = false ∧ '*' ≠ '/' := by decide
    obtain ⟨_, hrest⟩ := Comment.exists_split_code hcode hlead hsign hsign
    exact hnew (space_after_star hspaced hsign.1 (hfill.symm.trans hrest) hstarApart
      (fun _ => rfl) (fun hother => absurd hother (by decide)) (fun _ => hspaces))
  case product =>
    intro hfamily d t hlead hterm
    obtain ⟨hblank, hslash⟩ := startsTerm_solid hterm
    obtain ⟨_, hrest⟩ := Comment.exists_split_code hcode hlead (by decide) ⟨hblank, hslash⟩
    rw [startsTerm, Bool.or_eq_true, List.contains_iff_mem] at hterm
    exact hnew (space_after_star hspaced hblank (hfill.symm.trans hrest) hstarApart
      (fun hquote => aloof_operand hfamily (hterm.resolve_right hquote))
      (fun _ => aloof_markOpen hfamily) (fun _ => hspaces))

/-- **A block comment stays one when it is tidied, and code becomes one where its leading asterisk
gets a space.** In the C family an asterisk before an operand gets none, so such a line stays code,
but one before another asterisk does; in JavaScript it gets one before any operand. A line that starts
otherwise stays code, unless it ends like a comment whose opener is made up of the end of a regular
expression and an asterisk, which the C family does not have. -/
theorem isBlockLine_tidy {family : Family} (hcode : family = .javascript ∨ family = .cFamily)
    (language : Option Text) {line : Text} (hplain : markOpen ∉ line)
    (hlength : line.length ≤ numberLimit) :
    ∃ out, tidy family language line = .ok out ∧
      (isBlockLine line.trim = true → isBlockLine out = true) ∧
      (isBlockLine line.trim = false → LeavesCode family language line.trim out) ∧
      (family = .cFamily → ¬HidesOpener family language line.trim) := by
  have hsub := Text.trim_sublist line
  have hline := Text.trimmed_trim line
  have hplain' := mt (fun hmem => hsub.subset hmem) hplain
  have hlength' := Nat.le_trans hsub.length_le hlength
  have hcFamily : family = .cFamily → ¬HidesOpener family language line.trim := fun hfamily =>
    hfamily ▸ not_hidesOpener language hline hplain' hlength'
  have hcomment : isComment family line.trim = isBlockLine line.trim ∧
      tidyComment family line.trim = normalize line.trim := by
    rcases hcode with rfl | rfl <;> exact ⟨rfl, rfl⟩
  rw [tidy_eq, hcomment.1, hcomment.2]
  cases hblock : isBlockLine line.trim with
  | true =>
      exact ⟨_, rfl, fun _ => Comment.isBlockLine_normalize hline hblock, fun h => (by cases h),
        hcFamily⟩
  | false =>
      obtain ⟨out, htidy, hleaves⟩ := exists_leavesCode hcode language hline hplain' hlength' hblock
      rw [htidy]
      exact ⟨_, rfl, fun h => (by cases h), fun _ => hleaves, hcFamily⟩

/-- A generator method is code, and the line that comes of it looks like a comment. -/
theorem isBlockLine_tidy_generator :
    markOpen ∉ "  *items() \x7b".toList ∧ isBlockLine (Text.trim "  *items() \x7b".toList) = false ∧
      ∃ out, tidy .javascript none "  *items() \x7b".toList = .ok out ∧ isBlockLine out = true := by
  have hplain : markOpen ∉ "  *items() \x7b".toList := by decide
  have hcode : isBlockLine (Text.trim "  *items() \x7b".toList) = false := by decide
  obtain ⟨out, htidy, _, hleaves, _⟩ := isBlockLine_tidy (.inl rfl) none hplain
    (Nat.le_trans (by decide) Literal.addressLimit_le)
  exact ⟨hplain, hcode, out, htidy, (hleaves hcode).product rfl 'i' "tems() \x7b".toList rfl rfl⟩

end Line

end SourceLayout
