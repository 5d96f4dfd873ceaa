import SourceLayout.Proofs.Literal.Kinds
import SourceLayout.Proofs.Spacing.Apart

/-!
# The signs of a comment

A comment of code starts with a slash and another slash or an asterisk. Where the scanner finds no
comment these two stand next to each other in literals only, so not in the masked text, and the
spacing rules never bring them together.
-/

namespace SourceLayout

open Spacing (Apart)

namespace Comment

open Literal (Piece Legible EndsOutside IsClosed IsUnclosed quoted mark mask markOpen markClose)

variable {family : Family}

def slash : WordClass :=
  .only ['/']

/-- What makes a slash before it the start of a comment. -/
def signs : WordClass :=
  .only ['/', '*']

theorem slash_iff {c : Char} : slash.has c = true ↔ c = '/' := by
  simp only [slash, WordClass.only, Bool.and_eq_true, List.contains_iff_mem, List.mem_singleton,
    and_iff_right_iff_imp]
  rintro rfl
  decide

theorem signs_iff {c : Char} : signs.has c = true ↔ c = '/' ∨ c = '*' := by
  simp only [signs, WordClass.only, Bool.and_eq_true, List.contains_iff_mem, List.mem_cons,
    List.not_mem_nil, or_false, and_iff_right_iff_imp]
  rintro (rfl | rfl) <;> decide

theorem opensComment_cons (hcode : family = .javascript ∨ family = .cFamily) (c : Char)
    (cs : Text) : family.opensComment (c :: cs) = (slash.has c && headIs signs.has cs) := by
  have hsigns : ∀ d, signs.has d = (d == '/' || d == '*') := fun d => by
    rw [Bool.eq_iff_iff, signs_iff]
    simp
  by_cases hc : c = '/'
  · subst hc
    have hslash : slash.has '/' = true := slash_iff.mpr rfl
    rcases hcode with rfl | rfl <;> cases cs <;> simp [Family.opensComment, hslash, hsigns]
  · have hslash : slash.has c = false := by simpa using mt slash_iff.mp hc
    rcases hcode with rfl | rfl <;> cases cs <;> simp [Family.opensComment, hslash, hc]

theorem opensComment_append {left : Text} (hopens : family.opensComment left = true)
    (right : Text) : family.opensComment (left ++ right) = true := by
  rw [opensComment_iff] at hopens ⊢
  obtain ⟨marker, hmarker, hstarts⟩ := hopens
  exact ⟨marker, hmarker, hstarts.trans (List.prefix_append left right)⟩

/-! ### The code before a comment -/

theorem startFrom_of_prefix {previous inside : Option Char} {front t : Text} {place : Nat}
    (hstart : startFrom family previous inside t = some place) (hfront : front <+: t.take place) :
    startFrom family previous inside front = none := by
  induction t generalizing previous inside front place with
  | nil => simp [startFrom] at hstart
  | cons c cs ih =>
      cases front with
      | nil => rfl
      | cons d ds =>
          cases place with
          | zero => simp at hfront
          | succ place =>
              rw [List.take_succ_cons, List.cons_prefix_cons] at hfront
              obtain ⟨rfl, hfront⟩ := hfront
              have hlater : ∀ inside', (startFrom family (some d) inside' cs).map (· + 1) =
                  some (place + 1) → startFrom family (some d) inside' ds = none := by
                intro inside' hmap
                obtain ⟨earlier, hearlier, hplace⟩ := Option.map_eq_some_iff.mp hmap
                exact ih (by rw [hearlier, Nat.succ.inj hplace]) hfront
              cases inside with
              | some stop => simp [startFrom, hlater _ hstart]
              | none =>
                  rw [startFrom] at hstart ⊢
                  split at hstart
                  next => cases hstart
                  next hopens =>
                      have hshort : ¬family.opensComment (d :: ds) = true := by
                        obtain ⟨rest, hrest⟩ := hfront.trans (List.take_prefix place cs)
                        rw [← hrest] at hopens
                        exact fun hfound => hopens (opensComment_append hfound rest)
                      rw [if_neg hshort, hlater _ hstart, Option.map_none]

theorem opensComment_of_startFrom_none {previous : Option Char} {t : Text}
    (hnone : startFrom family previous none t = none) : family.opensComment t = false := by
  cases t with
  | nil => cases family <;> rfl
  | cons c cs =>
      cases hopens : family.opensComment (c :: cs) with
      | false => rfl
      | true => simp [startFrom, hopens] at hnone

theorem start?_split_code (family : Family) (line : Text) :
    start? family (split family line).code = none := by
  rw [split]
  split
  next hstart => exact hstart
  next place hstart =>
      obtain ⟨gap, _, hsplit⟩ := Text.trimRight_append (line.take place)
      exact startFrom_of_prefix hstart ⟨gap, hsplit⟩

theorem opensComment_split_comment {line : Text} (hcomment : (split family line).comment ≠ []) :
    family.opensComment (split family line).comment = true := by
  rw [split] at hcomment ⊢
  split
  next hstart => simp [hstart] at hcomment
  next place hstart => exact opensComment_of_startFrom hstart

theorem endsOutside_split {line : Text} (hcomment : (split family line).comment ≠ []) :
    EndsOutside family none (split family line).code := by
  rw [split] at hcomment ⊢
  split
  next hstart => simp [hstart] at hcomment
  next place hstart =>
      obtain ⟨gap, hgap, hsplit⟩ := Text.trimRight_append (line.take place)
      have hplace := lt_length_of_opensComment (opensComment_of_startFrom hstart)
      have hlength : (Text.trimRight (line.take place)).length + gap.length = place := by
        rw [← List.length_append, hsplit, List.length_take, Nat.min_eq_left (by omega)]
      refine ⟨gap, line.drop place, hgap, ?_⟩
      rw [← List.append_assoc, hsplit, List.take_append_drop, hlength]
      exact hstart

theorem trimmed_split_code {line : Text} (h : Text.Trimmed line) :
    Text.Trimmed (split family line).code := by
  rw [split]
  split
  next => exact h
  next place _ =>
      obtain ⟨gap, _, hsplit⟩ := Text.trimRight_append (line.take place)
      constructor
      · have hfront : Text.trimRight (line.take place) <+: line :=
          List.IsPrefix.trans ⟨gap, hsplit⟩ (List.take_prefix place line)
        obtain ⟨rest, hrest⟩ := hfront
        by_cases hne : Text.trimRight (line.take place) = []
        · rw [hne]
          rfl
        · rw [← Text.headIs_append hne rest, hrest]
          exact h.head
      · rw [Text.trimRight, List.reverse_reverse]
        exact Text.headIs_trimLeft _

/-- A comment is found again in its normal form. -/
theorem opensComment_normalize (hcode : family = .javascript ∨ family = .cFamily) {comment : Text}
    (hopens : family.opensComment comment = true) : family.opensComment (normalize comment) = true := by
  rw [opensComment_iff] at hopens ⊢
  obtain ⟨marker, hmarker, hstarts⟩ := hopens
  have hwords : ∀ marker ∈ markers family, marker ≠ [] ∧ marker.all signs.has = true := by
    rcases hcode with rfl | rfl <;> decide
  have hword := hwords marker hmarker
  refine ⟨marker, hmarker, List.isPrefixOf_iff_prefix.mp ?_⟩
  exact Line.startsWith_of_tokens hword.1 hword.2 (trimmed_normalize comment)
    (tokens_normalize comment).symm (List.isPrefixOf_iff_prefix.mpr hstarts)

/-! ### The masked text -/

theorem slash_of_mem_mark {number : Nat} {c : Char} (hc : c ∈ mark number) :
    slash.has c = false := by
  have hforeign := Literal.isForeign_of_mem_mark hc
  cases hslash : slash.has c with
  | false => rfl
  | true =>
      rw [slash_iff.mp hslash] at hforeign
      exact absurd hforeign (by decide)

/-- Marks are no signs of a comment. -/
theorem apart_mark_append (number : Nat) {t : Text} (h : Apart slash signs t) :
    Apart slash signs (mark number ++ t) := by
  refine Apart.append ?_ h
    (.inl (Text.headIs_reverse_of_forall_false fun c hc => slash_of_mem_mark hc))
  have hpairs : (mark number).IsChain fun c d => [c, d] <:+: mark number := List.isChain_isInfix _
  refine hpairs.imp fun c d hpair => ?_
  rw [slash_of_mem_mark (hpair.subset List.mem_cons_self)]
  simp

theorem apart_cons {c : Char} {t : Text} (h : Apart slash signs t)
    (hhead : slash.has c = true → headIs signs.has t = false) : Apart slash signs (c :: t) := by
  refine Apart.append (Apart.single c) h ?_
  cases hslash : slash.has c with
  | false => exact .inl hslash
  | true => exact .inr (hhead hslash)

theorem signs_markOpen : signs.has markOpen = false := by
  decide

theorem apart_quoted (hcode : family = .javascript ∨ family = .cFamily) {before t : Text}
    (hrun : Literal.QuotedRun family before t)
    (hnone : startFrom family before.head? none t = none) (literals : List Text) :
    Apart slash signs ((quoted family).maskFrom before 0 t literals).text := by
  induction hrun generalizing literals with
  | nil => exact Apart.nil
  | @char before cs c hend _ ih =>
      have hopens := opensComment_of_startFrom_none hnone
      have hlater : startFrom family (c :: before).head? none cs = none := by
        simpa [startFrom, hopens, hend] using hnone
      rw [Literal.Finder.maskFrom_cons (Literal.quoted_eq_zero_of_none hend)]
      refine apart_cons (ih hlater literals) fun hslash => ?_
      rw [opensComment_cons hcode, hslash, Bool.true_and] at hopens
      exact Bool.eq_false_iff.mpr fun hhead =>
        Bool.eq_false_iff.mp hopens (Literal.Finder.headIs_of_maskFrom signs_markOpen hhead)
  | closed hend hcloses hletters _ hfind _ ih =>
      rw [startFrom_literal (opensComment_of_startFrom_none hnone) hend hcloses hletters,
        Option.map_eq_none_iff] at hnone
      rw [Literal.Finder.maskFrom_found (by simp) hfind]
      exact apart_mark_append _ (ih hnone _)
  | unclosed _ _ hfind =>
      rw [Literal.Finder.maskFrom_found (by simp) hfind]
      exact apart_mark_append _ Apart.nil

/-- A span that gives way to its mark brings nothing together. -/
theorem apart_maskFrom (find : Literal.Finder) (before : Text) {t : Text}
    (h : Apart slash signs t) (literals : List Text) :
    Apart slash signs (find.maskFrom before 0 t literals).text := by
  induction before, t using Literal.Finder.scan_induct find generalizing literals with
  | done before => exact Apart.nil
  | passed before c cs hfind ih =>
      rw [Literal.Finder.maskFrom_cons hfind]
      refine apart_cons (ih (h.of_infix (List.suffix_cons c cs).isInfix) literals)
        fun hslash => Bool.eq_false_iff.mpr fun hhead => ?_
      have hsign := Literal.Finder.headIs_of_maskFrom signs_markOpen hhead
      rw [h.headIs_eq_false hslash] at hsign
      cases hsign
  | found before c cs n hfind ih =>
      rw [Literal.Finder.maskFrom_span hfind]
      have hrest := (List.drop_suffix n cs).trans (List.suffix_cons c cs)
      exact apart_mark_append _ (ih (h.of_infix hrest.isInfix) _)

/-- No comment starts in the masked text of code without comments. -/
theorem apart_mask (hcode : family = .javascript ∨ family = .cFamily) (language : Option Text)
    {code : Text} (hnone : start? family code = none) :
    Apart slash signs (mask family language code).text :=
  Literal.mask_induct_quoted (motive := fun masked => Apart slash signs masked.text)
    (apart_quoted hcode (Literal.quotedRun family [] code) hnone [])
    fun find _ masked h => apart_maskFrom find [] h masked.literals

end Comment

namespace Spacing

open Comment (slash signs)

/-- The rules bring no signs of a comment together. -/
theorem apart_signs {family : Family} (hcode : family = .javascript ∨ family = .cFamily)
    (language : Option Text) (t : Text) :
    Apart slash signs (applyAll (rules family language) t) := by
  have hsingle : ∀ operators : List String, ∀ c d, slash.has c = true → signs.has d = true →
      [c] ∈ operatorChoices operators ∨ [d] ∈ operatorChoices operators := by
    intro operators c d hc _
    rw [Comment.slash_iff.mp hc]
    exact .inl (List.mem_append_right _ (by decide))
  rcases hcode with rfl | rfl
  · exact apart_javascriptRules ⟨by decide, hsingle _⟩ (by decide +kernel) t
  · exact apart_cRules ⟨by decide, hsingle _⟩ (by decide +kernel)
      (@only_of_startsOperand ['/', '*'] (by decide)) language t

end Spacing

namespace Line

open Literal (mask markOpen numberLimit Piece pieces spanOf Spaced)

/-- The code of a line is tidied piece by piece, and may end in an open literal only if no comment
comes after it. -/
theorem spaced_mask_split {family : Family} (hcode : family = .javascript ∨ family = .cFamily)
    (language : Option Text) {line : Text} (hline : Text.Trimmed line) (hplain : markOpen ∉ line)
    (hlength : line.length ≤ numberLimit) :
    let split := Comment.split family line
    let masked := mask family language split.code
    let spaced := Spacing.applyAll (Spacing.rules family language) masked.text
    Spaced family split.comment.isEmpty (spanOf masked.literals) masked.text spaced ∧
      split.code = (pieces masked.text).flatMap (Piece.fill (spanOf masked.literals)) ∧
      tidyCode family language split.code =
        .ok ((pieces spaced).flatMap (Piece.fill (spanOf masked.literals))) := by
  have hsub := Comment.split_code_sublist family line
  refine spaced_mask hcode language (Comment.trimmed_split_code hline)
    (fun hmem => hplain (hsub.subset hmem)) (Nat.le_trans hsub.length_le hlength) ?_
  exact fun hcomment => Comment.endsOutside_split (by simpa using hcomment)

end Line

end SourceLayout
