import SourceLayout.Proofs.Initialiser
import SourceLayout.Proofs.Literal.Numeral
import SourceLayout.Proofs.Spacing.Number

/-!
# Tidied numbers

A decimal number with an exponent that stands by itself comes through tidying in one piece if it starts
with a digit, since it is cut out, or if its exponent has no sign, since no rule finds an operator in
it. A number that starts with its point and has a sign is not cut out, and the sign is written like any
other operator.
-/

namespace SourceLayout

namespace Text

theorem Trimmed.of_forall {t : Text} (ht : ∀ c ∈ t, isBlank c = false) : Trimmed t := by
  have hhead : ∀ r : Text, (∀ c ∈ r, isBlank c = false) → headIs isBlank r = false := by
    rintro (_ | ⟨c, cs⟩) hr
    · rfl
    · exact hr c List.mem_cons_self
  exact ⟨hhead t ht, hhead t.reverse fun c hc => ht c (List.mem_reverse.mp hc)⟩

theorem headIs_reverse_trimLeft {q : Char → Bool} {t : Text} (ht : headIs q t.reverse = false) :
    headIs q t.trimLeft.reverse = false := by
  have hsplit : t.takeWhile isBlank ++ t.trimLeft = t := List.takeWhile_append_dropWhile
  by_cases hne : t.trimLeft = []
  · rw [hne]
    rfl
  · rwa [← hsplit, headIs_reverse_append_of_ne_nil hne] at ht

theorem headIs_trimRight_eq_false {q : Char → Bool} {t : Text} (ht : headIs q t = false) :
    headIs q t.trimRight = false := by
  obtain ⟨blanks, -, hsplit⟩ := trimRight_append t
  by_cases hne : t.trimRight = []
  · rw [hne]
    rfl
  · rwa [← hsplit, headIs_append hne] at ht

/-- Around a stretch without blanks at its ends the blanks at the ends of the text go. -/
theorem trim_around {core : Text} (hne : core ≠ []) (hcore : Trimmed core) (p s : Text) :
    (p ++ (core ++ s)).trim = p.trimLeft ++ (core ++ s.trimRight) := by
  obtain ⟨blanks, hblanks, hright⟩ := trimRight_append s
  have hleft : p.takeWhile isBlank ++ p.trimLeft = p := List.takeWhile_append_dropWhile
  have htrimmed : Trimmed (p.trimLeft ++ (core ++ s.trimRight)) := by
    refine ⟨?head, ?last⟩
    case head =>
      have hhead := headIs_trimLeft p
      cases htrim : p.trimLeft with
      | nil => rw [List.nil_append, headIs_append hne, hcore.head]
      | cons c cs =>
          rw [htrim] at hhead
          exact hhead
    case last =>
      rw [headIs_reverse_append_of_ne_nil (by simp [hne])]
      by_cases hs : s.trimRight = []
      · rw [hs, List.append_nil, hcore.last]
      · rw [headIs_reverse_append_of_ne_nil hs, trimRight, List.reverse_reverse]
        exact headIs_trimLeft _
  have hwhole : p ++ (core ++ s) =
      p.takeWhile isBlank ++ (p.trimLeft ++ (core ++ s.trimRight) ++ blanks) := by
    simp only [List.append_assoc, hright]
    rw [← List.append_assoc (p.takeWhile isBlank), hleft]
  rw [hwhole, trim_blanks_append List.all_takeWhile, trim_append_blanks hblanks, htrimmed.trim_eq]

end Text

namespace Literal

variable {family : Family} {n : Numeral} {p s : Text}

/-- A number has one sign at most. -/
theorem Numeral.countP_isArrow_le (n : Numeral) : n.text.countP Spacing.isArrow ≤ 1 := by
  have hnone : ∀ c, continuesNumber c = true → Spacing.isArrow c = false := by
    intro c hc
    rw [Bool.eq_false_iff]
    intro harrow
    simp only [Spacing.isArrow, Bool.or_eq_true, beq_iff_eq] at harrow
    rcases harrow with (rfl | rfl) | rfl <;> exact absurd hc (by decide)
  have hzero : ∀ {t : Text}, (∀ c ∈ t, continuesNumber c = true) → t.countP Spacing.isArrow = 0 :=
    fun ht => List.countP_eq_zero.mpr fun c hc => by simp [hnone c (ht c hc)]
  have hmantissa := hzero fun c hc => continuesNumber_of_decimal (@Mantissa.mem_text n.mantissa c hc)
  have hletter := hzero (t := [n.letter]) (by simpa using n.continuesNumber_letter)
  have hpower := hzero fun c hc => continuesNumber_of_decimal (.inl (n.power_digits c hc))
  have hsign : n.sign.toList.countP Spacing.isArrow ≤ 1 := by
    refine List.countP_le_length.trans ?_
    cases n.sign <;> simp
  have hscale : n.scale = [n.letter] ++ (n.sign.toList ++ n.power) := rfl
  rw [Numeral.text, hscale, List.countP_append, List.countP_append, List.countP_append]
  omega

/-! ### The trimmed line -/

theorem continuesNumber_of_isBlank {c : Char} (hblank : isBlank c = true) :
    continuesNumber c = false := by
  rw [continuesNumber, isWord_of_isBlank c hblank, Bool.false_or, beq_eq_false_iff_ne]
  rintro rfl
  cases hblank

theorem Numeral.isBlank_of_mem {c : Char} (hc : c ∈ n.text) : isBlank c = false := by
  have hcontinued : continuesNumber c = true → isBlank c = false := by
    intro hcontinued
    rw [Bool.eq_false_iff]
    intro hblank
    rw [continuesNumber_of_isBlank hblank] at hcontinued
    cases hcontinued
  rcases Numeral.mem_text hc with hdecimal | rfl | hsign
  · exact hcontinued (continuesNumber_of_decimal hdecimal)
  · exact hcontinued n.continuesNumber_letter
  · rcases n.sign_eq c hsign with rfl | rfl <;> decide

theorem EndsInSign.of_trimLeft (h : EndsInSign p.trimLeft) : EndsInSign p := by
  obtain ⟨front, m, letter, sign, htrim, hwhole, hfront, hletter, hsign⟩ := h
  have hsplit : p.takeWhile isBlank ++ p.trimLeft = p := List.takeWhile_append_dropWhile
  refine ⟨p.takeWhile isBlank ++ front, m, letter, sign, ?_, hwhole, ?_, hletter, hsign⟩
  · rw [List.append_assoc, ← htrim, hsplit]
  · by_cases hne : front = []
    · rw [hne, List.append_nil]
      exact Text.headIs_reverse_of_forall_false fun c hc =>
        continuesNumber_of_isBlank (List.mem_takeWhile_imp hc)
    · rwa [Text.headIs_reverse_append_of_ne_nil hne]

theorem Surrounds.trim (h : Surrounds family p s) : Surrounds family p.trimLeft s.trimRight where
  quotes c hc := h.quotes c ((Text.trimLeft_sublist p).subset hc)
  regex hjavascript hinside :=
    h.regex hjavascript (hinside.trans (List.dropWhile_suffix _).isInfix)
  word := Text.headIs_reverse_trimLeft h.word
  sign hsign := h.sign hsign.of_trimLeft
  digit := Text.headIs_trimRight_eq_false h.digit

/-! ### The number in the spaced line -/

open Spacing (applyAll rules)

theorem fill_of_plain {t : Text} (hplain : markOpen ∉ t) (spans : Text → Text) :
    (pieces t).flatMap (Piece.fill spans) = t := by
  rw [pieces_of_plain hplain, List.flatMap_map]
  exact List.flatMap_singleton' t

/-- What is no part of a mark is left as it is. -/
theorem infix_fill {core t : Text} (hplain : markOpen ∉ core)
    (hhead : headIs WordClass.marked.has core = false) (h : core <:+: t) (spans : Text → Text) :
    core <:+: (pieces t).flatMap (Piece.fill spans) := by
  obtain ⟨u, v, rfl⟩ := h
  by_cases hne : core = []
  · exact hne ▸ List.nil_infix
  have hsep : Text.Separated .marked u (core ++ v) :=
    .of_head (by rwa [Text.headIs_append hne]) u
  have hcore := (@Expands.of_plain [] 0 core hplain).pieces_append v
  rw [List.append_assoc, pieces_append hsep, hcore, List.flatMap_append, List.flatMap_append,
    fill_of_plain hplain]
  exact List.infix_append' _ _ _

/-- A number that is held as a whole is in what comes of the spaced line. -/
theorem Numeral.HeldIn.infix_fill {masked : Masked}
    (hfamily : family = .javascript ∨ family = .python ∨ family = .cFamily) (language : Option Text)
    (h : n.HeldIn masked) (hlimit : masked.literals.length ≤ numberLimit) {spans : Text → Text}
    (hspans : ∀ digits ∈ marks masked.text,
      restore ⟨(Piece.mark digits).text, masked.literals⟩ = .ok (spans digits)) :
    n.text <:+: (pieces (applyAll (rules family language) masked.text)).flatMap (Piece.fill spans) := by
  cases h with
  | @bare u s left right hwhole hsign hframed =>
      obtain ⟨digits, htext, hne, hdigits⟩ := n.exists_pointed hwhole hsign
      have hjoined : Spacing.Joined (Text.solid u) ('.' :: digits) masked.text :=
        ⟨u, s, by rw [hframed.text, htext], rfl⟩
      obtain ⟨u', v', hspaced, -⟩ := Spacing.joined_rules hfamily language hne hdigits hjoined
      refine Literal.infix_fill (Numeral.not_mem_text (by decide +kernel)) ?_ ?_ spans
      · rw [htext, headIs_cons]
        decide +kernel
      · rw [hspaced, htext]
        exact List.infix_append' _ _ _
  | @marked u s left right span number hframed hget hplain hinside =>
      have hmark : Expands masked.literals masked.literals.length (mark number) span := by
        have hboth := Expands.mark (List.getElem?_eq_some_iff.mp hget).1 hget
          (.of_plain hplain) .nil
        rwa [List.append_nil, List.append_nil] at hboth
      have hpiece : Piece.mark (Nat.toDigits 10 number) ∈ solidPieces masked.text := by
        have hown := pieces_mark_append number []
        rw [List.append_nil] at hown
        rw [hframed.solidPieces_text hmark, solidPieces, solidPieces, hown]
        simp [Piece.isSolid]
      have hspaced : Piece.mark (Nat.toDigits 10 number) ∈
          pieces (applyAll (rules family language) masked.text) := by
        rwa [mem_pieces_iff rfl, Spacing.solidPieces_applyAll (List.prefix_refl _)]
      have hspan : spans (Nat.toDigits 10 number) = span := by
        have hrestore := hspans _ ((mem_marks_iff _ _).mpr ((mem_pieces_iff rfl _).mpr hpiece))
        rw [(spanOf_toDigits hlimit hmark).1] at hrestore
        exact (Except.ok.inj hrestore).symm
      refine hinside.trans ?_
      rw [← hspan]
      exact List.infix_of_mem_flatten (List.mem_map_of_mem (f := Piece.fill spans) hspaced)

end Literal

namespace Line

open Literal (mask markOpen numberLimit Numeral Surrounds Piece pieces)

variable {family : Family}

/-- **A number with an exponent stays in one piece unless it starts with its point and has a sign.** In
the three families of code, a decimal number that stands by itself, with no literal begun before it,
is found in the tidied code as it was if a digit is its first character or its exponent has no sign.
With neither, the number is parted even where it is all that there is. -/
theorem tidyCode_numeral
    (hfamily : family = .javascript ∨ family = .python ∨ family = .cFamily) (language : Option Text)
    (n : Numeral) :
    (n.mantissa.whole ≠ [] ∨ n.sign = none → ∀ p s, Surrounds family p s → markOpen ∉ p ++ s →
      (p ++ (n.text ++ s)).length ≤ numberLimit →
        ∃ out, tidyCode family language (p ++ (n.text ++ s)) = .ok out ∧ n.text <:+: out) ∧
    (n.mantissa.whole = [] → n.sign ≠ none → n.text.length ≤ numberLimit →
      ∃ out, tidyCode family language n.text = .ok out ∧ ¬n.text <:+: out) := by
  have hcode : family ≠ .css ∧ family ≠ .html := by
    rcases hfamily with rfl | rfl | rfl <;> decide
  have hnumber : markOpen ∉ n.text := Numeral.not_mem_text (by decide +kernel)
  have htrimmed : Text.Trimmed n.text := .of_forall fun c hc => Numeral.isBlank_of_mem hc
  refine ⟨fun hform p s hplace hplain hlength => ?_, fun hwhole hsign hlength => ?_⟩
  · have hplain : markOpen ∉ p ++ (n.text ++ s) := by
      simp only [List.mem_append, not_or] at hplain ⊢
      exact ⟨hplain.1, hnumber, hplain.2⟩
    obtain ⟨spans, out, htidy, hspans, -, rfl⟩ := exists_fill_tidyCode family language hplain hlength
    have hsub := Text.trim_sublist (p ++ (n.text ++ s))
    have hplain' := mt (fun hmem => hsub.subset hmem) hplain
    have hlimit := Nat.le_trans (Literal.stands_mask family language hplain').literals_length_le
      (Nat.le_trans hsub.length_le hlength)
    rw [Text.trim_around n.text_ne_nil htrimmed] at hplain' hlimit hspans htidy
    have hheld := Numeral.heldIn_mask hcode language hplace.trim hform hplain'
    exact ⟨_, htidy, hheld.infix_fill hfamily language hlimit hspans⟩
  · obtain ⟨sign, hsome⟩ := Option.ne_none_iff_exists'.mp hsign
    obtain ⟨spans, out, htidy, -, -, rfl⟩ := exists_fill_tidyCode family language hnumber hlength
    rw [htrimmed.trim_eq, Numeral.mask_text hcode language hwhole hsome] at htidy
    have happart := Spacing.apart_exponents hfamily language n.countP_isArrow_le
    have hspaced : markOpen ∉ Spacing.applyAll (Spacing.rules family language) n.text := by
      intro hmem
      rcases Spacing.mem_applyAll hmem with hmem | hspace
      · exact hnumber hmem
      · exact absurd hspace (by decide)
    rw [Literal.fill_of_plain hspaced] at htidy
    refine ⟨_, htidy, ?_⟩
    rintro ⟨left, right, hsame⟩
    have hseam : left ++ n.text ++ right =
        (left ++ n.mantissa.text) ++ n.letter :: sign :: (n.power ++ right) := by
      simp [Numeral.text, Numeral.scale, hsome]
    rw [← hsame, hseam] at happart
    refine happart.not_both ⟨?_, ?_⟩
    · rcases n.letter_eq with hletter | hletter <;> rw [hletter] <;> decide
    · rcases n.sign_eq sign hsome with rfl | rfl <;> decide

/-- A number after an operator, and a number that starts with its point. -/
theorem tidyCode_numeral_signed :
    (∃ out, tidyCode .python none "x = 2*1.5e-3".toList = .ok out ∧ "1.5e-3".toList <:+: out) ∧
      ∃ out, tidyCode .javascript none ".5e-3".toList = .ok out ∧ ¬".5e-3".toList <:+: out := by
  have hpython : Family.python = .javascript ∨ Family.python = .python ∨ Family.python = .cFamily :=
    .inr (.inl rfl)
  have hjavascript : Family.javascript = .javascript ∨ Family.javascript = .python ∨
      Family.javascript = .cFamily := .inl rfl
  have hplace : Surrounds .python "x = 2*".toList [] :=
    ⟨List.all_iff_forall_prop.mp (by decide), nofun, by decide, Literal.not_endsInSign (by decide), rfl⟩
  have hshort : ∀ {t : Text}, t.length ≤ 100 → t.length ≤ numberLimit := fun hlength =>
    Nat.le_trans hlength (Nat.le_trans (by decide) Literal.addressLimit_le)
  exact ⟨(tidyCode_numeral hpython none (.sample ['1'] (List.forall_mem_singleton.mpr rfl))).1
      (.inl (by simp [Numeral.sample])) "x = 2*".toList [] hplace (by decide) (hshort (by decide)),
    (tidyCode_numeral hjavascript none (.sample [] nofun)).2 rfl (by simp [Numeral.sample])
      (hshort (by decide))⟩

end Line

end SourceLayout
