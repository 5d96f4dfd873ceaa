import Mathlib.Data.List.Forall2
import SourceLayout.Proofs.Json.Grammar
import SourceLayout.Proofs.Layout.Blank

/-!
# Texts that write tokens

White space may go and come between tokens; trimming, cutting a text into lines and dropping blank
lines change nothing else.
-/

namespace SourceLayout.Json

namespace Written

variable {tokens : List Token} {t : Text}

theorem append (h : Written tokens t) {tokens' : List Token} {t' : Text}
    (h' : Written tokens' t') : Written (tokens ++ tokens') (t ++ t') := by
  induction h with
  | nil => exact h'
  | space hc _ ih => exact .space hc ih
  | token tok _ ih =>
      rw [List.append_assoc]
      exact .token tok ih

theorem spaces_append {gap : Text} (hgap : ∀ c ∈ gap, isSpace c = true) (h : Written tokens t) :
    Written tokens (gap ++ t) := by
  induction gap with
  | nil => exact h
  | cons c cs ih =>
      exact .space (hgap c List.mem_cons_self) (ih fun d hd => hgap d (List.mem_cons_of_mem c hd))

theorem eq_nil_of_blank (h : Written tokens t) (hblank : t.isEmptyLine = true) : tokens = [] := by
  induction h with
  | nil => rfl
  | space _ _ ih =>
      simp only [Text.isEmptyLine, List.all_cons, Bool.and_eq_true] at hblank
      exact ih hblank.2
  | @token tok _ t _ _ =>
      have hhead := tok.headIs_text.1
      cases htext : tok.text with
      | nil => exact absurd htext tok.text_ne_nil
      | cons c cs =>
          rw [htext] at hhead hblank
          simp_all [Text.isEmptyLine]

theorem trimLeft (h : Written tokens t) : Written tokens t.trimLeft := by
  induction h with
  | nil => exact .nil
  | @space c hc tokens t h ih =>
      rw [Text.trimLeft, List.dropWhile_cons_of_pos (isBlank_of_isSpace hc)]
      exact ih
  | token tok h _ =>
      rw [Text.trimLeft_eq_self]
      · exact .token tok h
      · rw [Text.headIs_append tok.text_ne_nil]
        exact tok.headIs_text.1

/-- A blank at the end is white space. -/
theorem of_append_blank {c : Char} (hc : isBlank c = true) (h : Written tokens (t ++ [c])) :
    Written tokens t := by
  generalize hsplit : t ++ [c] = t' at h
  induction h generalizing t with
  | nil => simp at hsplit
  | @space d hd tokens u h ih =>
      cases t with
      | nil =>
          obtain ⟨_, rfl⟩ := List.cons.inj hsplit
          exact h
      | cons e es =>
          obtain ⟨rfl, hrest⟩ := List.cons.inj hsplit
          exact .space hd (ih hrest)
  | @token tok tokens u h ih =>
      rcases List.eq_nil_or_concat u with rfl | ⟨front, d, rfl⟩
      · -- The token itself would end in the blank.
        have hlast := tok.headIs_text.2
        rw [List.append_nil] at hsplit
        rw [← hsplit, List.reverse_append] at hlast
        simp [hc] at hlast
      · rw [List.concat_eq_append, ← List.append_assoc] at hsplit
        obtain ⟨rfl, hd⟩ := List.append_inj' hsplit rfl
        exact .token tok (ih (by rw [List.concat_eq_append, hd]))

theorem of_append_blanks {gap : Text} (hgap : gap.all isBlank = true)
    (h : Written tokens (t ++ gap)) : Written tokens t := by
  induction gap using List.reverseRecOn with
  | nil => simpa using h
  | append_singleton front c ih =>
      simp only [List.all_append, List.all_cons, List.all_nil, Bool.and_true,
        Bool.and_eq_true] at hgap
      rw [← List.append_assoc] at h
      exact ih hgap.1 (h.of_append_blank hgap.2)

theorem trim (h : Written tokens t) : Written tokens t.trim := by
  obtain ⟨gap, hgap, hsplit⟩ := Text.trimRight_append t.trimLeft
  refine of_append_blanks hgap ?_
  rw [Text.trim, hsplit]
  exact h.trimLeft

/-! ### Lines of a written text -/

/-- The tokens are shared out among the lines. -/
theorem lines (h : Written tokens t) :
    ∃ parts, parts.flatten = tokens ∧ List.Forall₂ Written parts t.lines := by
  induction h with
  | nil => exact ⟨[[]], rfl, .cons .nil .nil⟩
  | @space c hc tokens t h ih =>
      obtain ⟨parts, rfl, hparts⟩ := ih
      by_cases hbreak : c = '\n'
      · subst hbreak
        exact ⟨[] :: parts, rfl, .cons .nil hparts⟩
      · obtain ⟨first, rest, hlines⟩ := Layout.exists_lines t
        rw [hlines] at hparts
        cases hparts with
        | @cons part _ parts _ hfirst hrest =>
            rw [Layout.lines_cons hbreak hlines]
            exact ⟨part :: parts, rfl, .cons (.space hc hfirst) hrest⟩
  | @token tok tokens t h ih =>
      obtain ⟨parts, rfl, hparts⟩ := ih
      obtain ⟨first, rest, hlines⟩ := Layout.exists_lines t
      rw [hlines] at hparts
      cases hparts with
      | @cons part _ parts _ hfirst hrest =>
          rw [Layout.lines_append tok.newline_not_mem hlines]
          exact ⟨(tok :: part) :: parts, rfl, .cons (.token tok hfirst) hrest⟩

theorem ofLines {parts : List (List Token)} {lines : List Text}
    (h : List.Forall₂ Written parts lines) : Written parts.flatten (Text.ofLines lines) := by
  induction h with
  | nil => exact .nil
  | @cons part line parts lines hfirst hrest ih =>
      cases hrest with
      | nil => simpa [Text.ofLines, List.intercalate] using hfirst
      | cons hsecond hothers =>
          rw [Layout.ofLines_cons, List.flatten_cons]
          exact hfirst.append (.space (by decide) ih)

theorem exists_of_mem {parts : List (List Token)} {lines : List Text}
    (h : List.Forall₂ Written parts lines) {line : Text} (hline : line ∈ lines) :
    ∃ part, Written part line := by
  induction h with
  | nil => simp at hline
  | cons hfirst _ ih =>
      rcases List.mem_cons.mp hline with rfl | hline
      · exact ⟨_, hfirst⟩
      · exact ih hline

/-- Blank lines hold no tokens. -/
theorem thinned {parts : List (List Token)} {lines kept : List Text}
    (h : List.Forall₂ Written parts lines) (hthin : Layout.Thinned lines kept) :
    ∃ parts', parts'.flatten = parts.flatten ∧ List.Forall₂ Written parts' kept := by
  induction hthin generalizing parts with
  | nil => exact ⟨parts, rfl, h⟩
  | keep line _ ih =>
      cases h with
      | @cons part _ parts _ hfirst hrest =>
          obtain ⟨parts', hflatten, hkept⟩ := ih hrest
          exact ⟨part :: parts', by rw [List.flatten_cons, hflatten, List.flatten_cons],
            .cons hfirst hkept⟩
  | drop hblank _ ih =>
      cases h with
      | cons hfirst hrest =>
          obtain ⟨parts', hflatten, hkept⟩ := ih hrest
          rw [hfirst.eq_nil_of_blank hblank]
          exact ⟨parts', hflatten, hkept⟩

theorem collapseFrom (h : Written tokens t) (run : Nat) :
    Written tokens (Layout.collapseFrom run t) := by
  induction h generalizing run with
  | nil => exact .nil
  | space hc _ ih =>
      rw [Layout.collapseFrom]
      split
      · split
        · exact ih _
        · exact .space hc (ih _)
      · exact .space hc (ih _)
  | token tok h ih =>
      obtain ⟨run', hcollapse⟩ := Layout.collapseFrom_append tok.newline_not_mem run
      rw [hcollapse]
      exact .token tok (ih _)

end Written

end SourceLayout.Json
