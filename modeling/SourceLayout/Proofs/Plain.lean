import SourceLayout.Proofs.Literal.Count
import SourceLayout.Proofs.Outcome

/-!
# Formatting again

Formatting moves blanks only, so a text without marks is formatted into a text without marks, with
as many characters that are no blanks. These bound the number of literals, however long the text
has become. So a formatted text can be formatted again, any number of times, and only want of room
can keep a text without marks from being formatted under options that are good for its language.
-/

namespace SourceLayout

open Text (tokens)
open Layout (Layable body)
open Literal (markOpen numberLimit)

/-- A text without marks, and with few enough characters for all its literals to be numbered. -/
structure Text.Plain (text : Text) : Prop where
  unmarked : markOpen ∉ text
  countable : text.solid.length ≤ numberLimit

namespace Text

theorem plain_of_length {text : Text} (hplain : markOpen ∉ text)
    (hlength : text.length ≤ numberLimit) : text.Plain :=
  ⟨hplain, Nat.le_trans (List.length_filter_le ..) hlength⟩

theorem Plain.of_sublist {part text : Text} (hsub : part.Sublist text) (htext : text.Plain) :
    part.Plain :=
  ⟨mt (fun hmem => hsub.subset hmem) htext.unmarked,
    Nat.le_trans (hsub.filter _).length_le htext.countable⟩

theorem Plain.congr {text text' : Text} (hsolid : text'.solid = text.solid) (htext : text.Plain) :
    text'.Plain := by
  have hmark : ∀ t : Text, markOpen ∈ t ↔ markOpen ∈ t.solid := by
    intro t
    rw [solid, List.mem_filter]
    exact (and_iff_left (by decide +kernel)).symm
  exact ⟨by rw [hmark, hsolid, ← hmark]; exact htext.unmarked, hsolid ▸ htext.countable⟩

theorem flatten_solid_lines (t : Text) : (t.lines.map solid).flatten = t.solid := by
  induction t with
  | nil => rfl
  | cons c cs ih =>
      by_cases hc : c = '\n'
      · subst hc
        rw [Layout.lines_newline_cons, List.map_cons, List.flatten_cons, ih]
        rfl
      · obtain ⟨first, rest, hlines⟩ := Layout.exists_lines cs
        rw [hlines] at ih
        rw [Layout.lines_cons hc hlines, List.map_cons, List.flatten_cons, ← List.singleton_append,
          solid_append, ← List.singleton_append (l := cs), solid_append, ← ih, List.map_cons,
          List.flatten_cons, List.append_assoc]

/-- The characters of a text that are no blanks are those of its lines with something in them. -/
theorem flatten_solid_body (t : Text) : ((body t.lines).map solid).flatten = t.solid := by
  rw [← flatten_solid_lines t]
  induction t.lines with
  | nil => rfl
  | cons line lines ih =>
      cases hblank : line.isEmptyLine with
      | true =>
          rw [Layout.body_blank_cons hblank, ih, List.map_cons, solid_blanks hblank]
          rfl
      | false =>
          have htrim : line.trim.solid = line.solid := by
            rw [← flatten_tokens .plain, ← flatten_tokens .plain, tokens_trim]
          rw [Layout.body_cons hblank, List.map_cons, List.map_cons, List.flatten_cons,
            List.flatten_cons, ih, htrim]

end Text

/-! ### Plain texts are formatted into plain texts -/

/-- The code of a plain line comes back from masking. -/
theorem Line.restorable_of_plainText (family : Family) (language : Option Text) {line : Text}
    (hline : line.Plain) : Restorable family language line := by
  have hcode := Text.Plain.of_sublist (split_code_trim_sublist family line) hline
  have hstands := Literal.stands_mask family language hcode.unmarked
  have hcount := Literal.length_literals_le family language
    (Comment.split family line.trim).code.trim
  exact .inr ⟨_, hstands.1.restore_eq (Nat.le_trans hcount hcode.countable)⟩

variable {language : Option Text} {family : Family} {unit : IndentUnit} {text : Text}

theorem layable_of_plainText (family : Family) (language : Option Text) (htext : text.Plain) :
    ∀ line ∈ text.lines, Layable family language line := fun _ hline =>
  .inr (.inr (Line.restorable_of_plainText family language
    (htext.of_sublist (Layout.sublist_of_mem_lines hline))))

/-- Formatting moves blanks only. -/
theorem solid_of_format (hfamily : Language.family? (language.getD []) = some family)
    (hunit : ∀ c ∈ unit.text, isBlank c = true ∧ c ≠ '\n') (hplain : markOpen ∉ text) {out : Text}
    (hformat : format language unit text = .ok out) : out.solid = text.solid := by
  have hblanks : unit.text.all isBlank = true :=
    List.all_eq_true.mpr fun c hc => (hunit c hc).1
  obtain ⟨laid, hlaid, hbody⟩ := laid_of_format hfamily (fun hmem => (hunit _ hmem).2 rfl) hformat
  have htokens : (body out.lines).map (tokens .marked) =
      (body text.lines).map (tokens .marked) := by
    rw [hbody, map_tokens_body, map_tokens_body, Layout.map_tokens_of_laid hlaid hblanks
      fun line hline => mt (fun hmem => (Layout.sublist_of_mem_lines hline).subset hmem) hplain]
  have hsolid : ∀ t : Text, (((body t.lines).map (tokens .marked)).map List.flatten).flatten =
      t.solid := by
    intro t
    rw [List.map_map, ← Text.flatten_solid_body]
    exact congrArg List.flatten (List.map_congr_left fun line _ => Text.flatten_tokens .marked line)
  rw [← hsolid, htokens, hsolid]

/-! ### Under options -/

/-- A failure that is reported, or for want of room. -/
def Failure.Ordinary (failure : Failure) : Prop :=
  failure.IsLimit ∨ ∃ diagnostic, failure = .reported diagnostic

namespace Options

variable {options : Options} {path : Option String} {formatted : Text}

theorem plain_ended (hformatted : formatted.Plain) : (options.ended formatted).Plain := by
  have hbreak : Text.solid ['\n'] = [] := Text.solid_blanks (by decide +kernel)
  rw [ended]
  split
  · exact hformatted.congr (by rw [Text.solid_append, hbreak, List.append_nil])
  · exact hformatted

variable [Machine]

theorem isBlank_of_unit (hunit : options.unit = .ok unit) :
    ∀ c ∈ unit.text, isBlank c = true ∧ c ≠ '\n' := by
  rcases (unitOf_eq_ok hunit).1 with hchar | hchar <;> rw [hchar, List.forall_mem_singleton] <;>
    decide +kernel

/-- Under a good tab size a plain text is formatted if there is room for it. -/
theorem answers_iff_of_plain {size : Nat} (hsize : options.tabSize.positive? = some size)
    (htext : text.Plain) : options.Answers language text ↔ options.Fits size language text := by
  simp only [Answers, hsize]
  exact and_iff_left fun family _ => layable_of_plainText family _ htext

/-- A plain text is formatted into a plain one. -/
theorem plain_of_run (htext : text.Plain) (hrun : options.run language text = .ok formatted) :
    formatted.Plain := by
  obtain ⟨unit, hunit, hformat⟩ := bind_eq_ok_iff.mp hrun
  cases hfamily : Language.family? (language.getD []) with
  | none =>
      rw [formatWithin_of_none hfamily] at hformat
      cases hformat
  | some family =>
      obtain ⟨hformat, _⟩ := (formatWithin_eq_ok_iff hfamily).mp hformat
      exact htext.congr (solid_of_format hfamily (isBlank_of_unit hunit) htext.unmarked hformat)

theorem ordinary_unit (options : Options) : FailsOnly Failure.Ordinary options.unit := by
  cases hsize : options.tabSize.positive? with
  | some size => exact (isLimit_unit hsize).imp fun _ => .inl
  | none =>
      simp only [Options.unit, unitOf, hsize]
      intro failure hfailure
      split at hfailure
      next =>
          cases hfailure
          exact .inl trivial
      next =>
          cases hfailure
          exact .inr ⟨_, rfl⟩

theorem ordinary_formatWithin (htext : text.Plain) (language : Option Text) (unit : IndentUnit) :
    FailsOnly Failure.Ordinary (formatWithin language unit text) := by
  cases hfamily : Language.family? (language.getD []) with
  | none =>
      intro failure hfailure
      rw [formatWithin_of_none hfamily] at hfailure
      cases hfailure
      exact .inr ⟨_, rfl⟩
  | some family =>
      obtain ⟨laid, hlaid⟩ := (@Layout.exists_indent_iff family _ unit _).mpr
        (layable_of_plainText family _ htext)
      exact (isLimit_formatWithin hfamily hlaid).imp fun _ => .inl

/-- A plain text is formatted, or refused with an explanation, or there is no room for it. -/
theorem isLimit_of_format {failure : Failure} (htext : text.Plain)
    (hformat : options.format language path text = .error failure) : failure.IsLimit := by
  rw [Options.format] at hformat
  split at hformat
  next => cases hformat
  next own hreported hrun =>
      cases hformat
      have hordinary : FailsOnly Failure.Ordinary (options.run language text) :=
        (ordinary_unit options).bind fun unit => ordinary_formatWithin htext language unit
      rcases hordinary failure hrun with hlimit | ⟨diagnostic, rfl⟩
      · exact hlimit
      · exact absurd rfl (hreported diagnostic)
  next formatted hrun => exact (isLimit_finish formatted).map _ failure hformat

end Options

end SourceLayout
