import Mathlib.Data.List.Forall2
import SourceLayout.Layout.Structure
import SourceLayout.Proofs.Layout.Blank
import SourceLayout.Proofs.Line

/-!
# What becomes of the lines of a document

Indenting turns every line into one line, in one of three ways (`Laid`), and fails exactly where the
code of a line is not restored. The structural pass keeps the body.
-/

namespace SourceLayout.Layout

open Text (tokens)
open Literal (RestoreError markOpen isForeign numberLimit)

variable {family : Family} {language : Option Text} {unit : IndentUnit}

/-- How a line is laid out: blank lines become empty, lines for the preprocessor are trimmed, and
all others are tidied and indented. -/
inductive Laid (family : Family) (language : Option Text) (unit : IndentUnit) :
    Text → Text → Prop
  | blank {line : Text} (hblank : line.isEmptyLine = true) : Laid family language unit line []
  | directive {line : Text} (hfamily : family = .cFamily) : Laid family language unit line line.trim
  | tidied {line tidied : Text} (level : Nat) (hblank : line.isEmptyLine = false)
      (htidy : Line.tidy family language line = .ok tidied) :
      Laid family language unit line (indented family unit level tidied)

/-- The lines that can be laid out. -/
def Layable (family : Family) (language : Option Text) (line : Text) : Prop :=
  line.isEmptyLine = true ∨ (family = .cFamily ∧ Indent.isDirective line.trim = true) ∨
    Line.Restorable family language line

theorem tidy_trim (family : Family) (language : Option Text) (line : Text) :
    Line.tidy family language line.trim = Line.tidy family language line := by
  rw [Line.tidy, Line.tidy, Text.trim_trim]

/-! ### Lines at their levels -/

theorem indent_eq_write (lines : List Text) :
    indent family language unit lines = write family unit (slots family language lines) := by
  rw [indent, slots]
  split <;> rfl

theorem shift_eq_nil {text : Text} (htext : text.startsWith ['*'] = false) :
    shift family text = [] := by
  simp [shift, htext]

theorem indented_margin {text : Text} (htext : text.startsWith ['*'] = false) :
    indented family unit 0 text = text := by
  simp [indented, shift_eq_nil htext, IndentUnit.levels]

/-- How one line is indented by its width. -/
def layByWidth (family : Family) (language : Option Text) (unit : IndentUnit) (line : Text) :
    Except RestoreError Text :=
  if line.isEmptyLine then .ok []
  else (Line.tidy family language line.trim).map (indented family unit (Indent.level family line))

/-- One line at a depth. -/
def layAt (family : Family) (language : Option Text) (unit : IndentUnit) (depth : Nat)
    (line : Text) : Except RestoreError Text :=
  if line.trim.isEmpty then .ok []
  else if family = .cFamily ∧ Indent.isDirective line.trim then .ok line.trim
  else (Line.tidy family language line).map fun tidied =>
    indented family unit (Indent.levelAt depth tidied) tidied

theorem map_slotByWidth (line : Text) :
    (slotByWidth family language line).map (Slot.line family unit) =
      layByWidth family language unit line := by
  rw [slotByWidth, layByWidth]
  split
  next => exact congrArg Except.ok (indented_margin rfl)
  next => cases Line.tidy family language line.trim <;> rfl

theorem map_slotAt (depth : Nat) (line : Text) :
    (slotAt family language depth line).map (Slot.line family unit) =
      layAt family language unit depth line := by
  rw [slotAt, layAt, tidy_trim]
  split
  next => exact congrArg Except.ok (indented_margin rfl)
  next =>
      split
      next hdirective =>
          -- A line that starts with a sharp starts with no star.
          refine congrArg Except.ok (indented_margin ?_)
          obtain ⟨rest, hrest⟩ := List.isPrefixOf_iff_prefix.mp hdirective.2
          rw [← hrest]
          rfl
      next => cases Line.tidy family language line <;> rfl

theorem mapM_cons_eq_ok {α β ε : Type} {f : α → Except ε β} {a : α} {as : List α}
    {out : List β} :
    (a :: as).mapM f = .ok out ↔
      ∃ first rest, f a = .ok first ∧ as.mapM f = .ok rest ∧ out = first :: rest := by
  simp [List.mapM_cons, bind_eq_ok_iff, pure, Except.pure, @eq_comm _ out]

theorem exists_cons_iff {first? : Text → Prop} {rest? : List Text → Prop} :
    (∃ out first rest, first? first ∧ rest? rest ∧ out = first :: rest) ↔
      (∃ first, first? first) ∧ ∃ rest, rest? rest := by
  constructor
  · rintro ⟨_, first, rest, hfirst, hrest, rfl⟩
    exact ⟨⟨first, hfirst⟩, rest, hrest⟩
  · rintro ⟨⟨first, hfirst⟩, rest, hrest⟩
    exact ⟨_, first, rest, hfirst, hrest, rfl⟩

/-! ### Indenting by width -/

theorem byWidth_cons_eq_ok {line : Text} {lines out : List Text} :
    byWidth family language unit (line :: lines) = .ok out ↔
      ∃ first rest, layByWidth family language unit line = .ok first ∧
        byWidth family language unit lines = .ok rest ∧ out = first :: rest := by
  rw [byWidth, write, List.map_cons, mapM_cons_eq_ok, map_slotByWidth]
  rfl

theorem laid_of_byWidth {lines out : List Text}
    (hindent : byWidth family language unit lines = .ok out) :
    List.Forall₂ (Laid family language unit) lines out := by
  induction lines generalizing out with
  | nil =>
      cases hindent
      exact .nil
  | cons line lines ih =>
      obtain ⟨first, rest, hfirst, hrest, rfl⟩ := byWidth_cons_eq_ok.mp hindent
      refine .cons ?_ (ih hrest)
      rw [layByWidth] at hfirst
      split at hfirst
      next hblank =>
          cases hfirst
          exact .blank hblank
      next hblank =>
          obtain ⟨tidied, htidy, rfl⟩ := exists_of_map_eq_ok hfirst
          rw [tidy_trim] at htidy
          exact .tidied _ (by simpa using hblank) htidy

theorem exists_layByWidth_iff (line : Text) :
    (∃ out, layByWidth family language unit line = .ok out) ↔
      line.isEmptyLine = true ∨ Line.Restorable family language line := by
  rw [← Line.exists_tidy_iff, layByWidth, tidy_trim]
  split
  next hblank => simp [hblank]
  next hblank =>
      simp only [hblank, Bool.false_eq_true, false_or]
      cases Line.tidy family language line <;> simp [Except.map]

theorem exists_byWidth_iff (lines : List Text) :
    (∃ out, byWidth family language unit lines = .ok out) ↔
      ∀ line ∈ lines, line.isEmptyLine = true ∨ Line.Restorable family language line := by
  induction lines with
  | nil => simp [byWidth, write, pure, Except.pure]
  | cons line lines ih =>
      simp only [List.mem_cons, forall_eq_or_imp, byWidth_cons_eq_ok]
      exact exists_cons_iff.trans (and_congr (exists_layByWidth_iff line) ih)

/-! ### Indenting by depth -/

theorem byDepthFrom_cons_eq_ok {depth : Nat} {line : Text} {lines out : List Text} :
    byDepthFrom family language unit depth (line :: lines) = .ok out ↔
      ∃ first rest, layAt family language unit depth line = .ok first ∧
        byDepthFrom family language unit (depthPast family depth line) lines = .ok rest ∧
        out = first :: rest := by
  rw [byDepthFrom, write, slotsFrom, mapM_cons_eq_ok, map_slotAt]
  rfl

theorem laid_of_layAt {depth : Nat} {line out : Text}
    (hlay : layAt family language unit depth line = .ok out) :
    Laid family language unit line out := by
  rw [layAt] at hlay
  split at hlay
  next hempty =>
      cases hlay
      exact .blank ((Text.trim_eq_nil_iff line).mp (by simpa using hempty))
  next hempty =>
      split at hlay
      next hdirective =>
          cases hlay
          exact .directive hdirective.1
      next =>
          obtain ⟨tidied, htidy, rfl⟩ := exists_of_map_eq_ok hlay
          rw [List.isEmpty_iff, Text.trim_eq_nil_iff] at hempty
          exact .tidied _ (by simpa using hempty) htidy

theorem laid_of_byDepthFrom {depth : Nat} {lines out : List Text}
    (hindent : byDepthFrom family language unit depth lines = .ok out) :
    List.Forall₂ (Laid family language unit) lines out := by
  induction lines generalizing depth out with
  | nil =>
      cases hindent
      exact .nil
  | cons line lines ih =>
      obtain ⟨first, rest, hfirst, hrest, rfl⟩ := byDepthFrom_cons_eq_ok.mp hindent
      exact .cons (laid_of_layAt hfirst) (ih hrest)

theorem exists_layAt_iff (depth : Nat) (line : Text) :
    (∃ out, layAt family language unit depth line = .ok out) ↔ Layable family language line := by
  rw [layAt, Layable, ← Line.exists_tidy_iff, ← Text.trim_eq_nil_iff]
  split
  next hempty => simp_all
  next hempty =>
      split
      next hdirective => simp [hdirective]
      next hdirective =>
          rw [List.isEmpty_iff] at hempty
          simp only [hempty, hdirective, false_or]
          cases Line.tidy family language line <;> simp [Except.map]

theorem exists_byDepthFrom_iff (depth : Nat) (lines : List Text) :
    (∃ out, byDepthFrom family language unit depth lines = .ok out) ↔
      ∀ line ∈ lines, Layable family language line := by
  induction lines generalizing depth with
  | nil => simp [byDepthFrom, write, slotsFrom, pure, Except.pure]
  | cons line lines ih =>
      simp only [List.mem_cons, forall_eq_or_imp, byDepthFrom_cons_eq_ok]
      exact exists_cons_iff.trans (and_congr (exists_layAt_iff depth line) (ih _))

/-! ### Either way -/

theorem laid_of_indent {lines out : List Text}
    (hindent : indent family language unit lines = .ok out) :
    List.Forall₂ (Laid family language unit) lines out := by
  rw [indent] at hindent
  split at hindent
  · exact laid_of_byDepthFrom hindent
  · exact laid_of_byWidth hindent

/-- Indenting succeeds exactly when every line can be laid out. -/
theorem exists_indent_iff (lines : List Text) :
    (∃ out, indent family language unit lines = .ok out) ↔
      ∀ line ∈ lines, Layable family language line := by
  rw [indent]
  split
  next => exact exists_byDepthFrom_iff 0 lines
  next hdepth =>
      have hfamily : family ≠ .cFamily := by
        rintro rfl
        exact hdepth rfl
      simp only [exists_byWidth_iff, Layable, hfamily, false_and, false_or]

/-! ### A line that cannot be laid out -/

theorem isComment_mark (family : Family) (number : Nat) :
    Line.isComment family (Literal.mark number) = false := by
  have hhead : ∀ c, c ≠ markOpen → headIs (· == c) (Literal.mark number) = false := by
    intro c hc
    simpa [Literal.mark] using Ne.symm hc
  have hlast : headIs (· == '/') (Literal.mark number).reverse = false := by
    simp [Literal.mark, Literal.markClose]
  have hend : (Literal.mark number).endsWith "*/".toList = false :=
    Comment.startsWith_eq_false hlast
  have hhas : Text.has "-->".toList (Literal.mark number) = false := by
    rw [Bool.eq_false_iff]
    intro hhas
    have hdash : '-' ∈ Literal.mark number := Text.subset_of_has hhas (by decide)
    exact absurd (Literal.isForeign_of_mem_mark hdash) (by decide +kernel)
  have hblock := Comment.isBlockLine_eq_false (hhead '/' (by decide)) (hhead '*' (by decide)) hlast
  cases family with
  | html =>
      rw [Line.isComment, hhas, Bool.or_false]
      exact Comment.startsWith_eq_false (hhead '<' (by decide))
  | css =>
      rw [Line.isComment, hend, Bool.or_false]
      exact Comment.startsWith_eq_false (hhead '/' (by decide))
  | python => rfl
  | javascript => exact hblock
  | cFamily => exact hblock

/-- A line that is a mark cannot be laid out, whatever its number. -/
theorem not_layable_mark (family : Family) (language : Option Text) (number : Nat) :
    ¬Layable family language (Literal.mark number) := by
  have htrim : (Literal.mark number).trim = Literal.mark number := by
    apply Text.trim_eq_self
    · simp only [Literal.mark, List.cons_append, headIs_cons]
      decide +kernel
    · simp only [Literal.mark, List.reverse_append, List.reverse_cons, List.reverse_nil,
        List.nil_append, List.cons_append, headIs_cons]
      decide +kernel
  have hsign : ∀ c, isForeign c = true → c ∉ Literal.mark number := by
    intro c hforeign hmem
    simp [Literal.isForeign_of_mem_mark hmem] at hforeign
  have hsplit := @Comment.split_eq_self family (Literal.mark number)
    (hsign _ (by decide +kernel)) (hsign _ (by decide +kernel))
  rintro (hblank | ⟨_, hdirective⟩ | hcomment | ⟨code, hcode⟩)
  · rw [← Text.trim_eq_nil_iff, htrim] at hblank
    simp [Literal.mark] at hblank
  · rw [htrim, Indent.isDirective, Comment.startsWith_eq_false] at hdirective
    · simp at hdirective
    · simp [Literal.mark, Literal.markOpen]
  · rw [htrim, isComment_mark] at hcomment
    simp at hcomment
  · rw [htrim, hsplit, htrim] at hcode
    exact Literal.restore_mask_mark family language number code hcode

/-! ### What a line keeps -/

theorem levels_all_isBlank (hunit : unit.text.all isBlank = true) (count : Nat) :
    (unit.levels count).all isBlank = true := by
  simp only [IndentUnit.levels, List.all_flatten, List.all_eq_true]
  intro text htext
  obtain rfl := List.eq_of_mem_replicate htext
  exact List.all_eq_true.mp hunit

/-- What a line is indented by. -/
def margin (family : Family) (unit : IndentUnit) (level : Nat) (tidied : Text) : Text :=
  unit.levels level ++ shift family tidied

theorem indented_eq (level : Nat) (tidied : Text) :
    indented family unit level tidied = margin family unit level tidied ++ tidied :=
  rfl

theorem margin_all_isBlank (hunit : unit.text.all isBlank = true) (level : Nat) (tidied : Text) :
    (margin family unit level tidied).all isBlank = true := by
  rw [margin, List.all_append, levels_all_isBlank hunit, Bool.true_and, shift]
  split <;> decide

theorem mem_margin {level : Nat} {tidied : Text} {c : Char}
    (hc : c ∈ margin family unit level tidied) : c ∈ unit.text ∨ c = ' ' := by
  rcases List.mem_append.mp hc with hlevel | hshift
  · obtain ⟨text, htext, hmem⟩ := List.mem_flatten.mp hlevel
    obtain rfl := List.eq_of_mem_replicate htext
    exact .inl hmem
  · rw [shift] at hshift
    split at hshift
    · exact .inr (by simpa using hshift)
    · simp at hshift

theorem Laid.tokens_eq {line out : Text} (h : Laid family language unit line out)
    (hunit : unit.text.all isBlank = true) (hplain : markOpen ∉ line) :
    tokens .marked out = tokens .marked line := by
  cases h with
  | blank hblank => exact (Text.tokens_blanks hblank).symm
  | directive _ => exact Text.tokens_trim line
  | tidied level _ htidy =>
      rw [indented_eq, Text.tokens_blanks_append (margin_all_isBlank hunit level _)]
      exact Line.tokens_tidy hplain htidy

theorem Laid.mem {line out : Text} (h : Laid family language unit line out) {c : Char}
    (hforeign : isForeign c = true) (hc : c ∈ out) : c ∈ line ∨ c ∈ unit.text ∨ c = ' ' := by
  cases h with
  | blank hblank => simp at hc
  | directive _ => exact .inl ((Text.trim_sublist line).subset hc)
  | tidied level _ htidy =>
      rw [indented_eq] at hc
      rcases List.mem_append.mp hc with hmargin | hmem
      · exact .inr (mem_margin hmargin)
      · exact (Line.mem_tidy hforeign htidy hmem).imp_right .inr

theorem mem_of_laid {lines laid : List Text}
    (h : List.Forall₂ (Laid family language unit) lines laid) {c : Char}
    (hforeign : isForeign c = true) (hc : c ∈ laid.flatten) :
    c ∈ lines.flatten ∨ c ∈ unit.text ∨ c = ' ' := by
  induction h with
  | nil => exact .inl hc
  | cons hfirst _ ih =>
      rw [List.flatten_cons, List.mem_append] at hc ⊢
      rcases hc with hline | hrest
      · exact (hfirst.mem hforeign hline).imp_left .inl
      · exact (ih hrest).imp_left .inr

/-- Lines that lack marks of their own keep their tokens when they are laid out. -/
theorem map_tokens_of_laid {lines laid : List Text}
    (h : List.Forall₂ (Laid family language unit) lines laid) (hunit : unit.text.all isBlank = true)
    (hlines : ∀ line ∈ lines, markOpen ∉ line) :
    laid.map (tokens .marked) = lines.map (tokens .marked) := by
  induction h with
  | nil => rfl
  | cons hfirst _ ih =>
      obtain ⟨hplain, hothers⟩ := List.forall_mem_cons.mp hlines
      rw [List.map_cons, List.map_cons, hfirst.tokens_eq hunit hplain, ih hothers]

theorem tokens_of_laid {lines laid : List Text}
    (h : List.Forall₂ (Laid family language unit) lines laid) (hunit : unit.text.all isBlank = true)
    (hlines : ∀ line ∈ lines, markOpen ∉ line ∧ line.length ≤ numberLimit) :
    laid.map (tokens .marked) = lines.map (tokens .marked) :=
  map_tokens_of_laid h hunit fun line hline => (hlines line hline).1

/-! ### What a document keeps -/

/-- In code some blank lines go, and then standalone comments may be aligned. -/
theorem settle_cases (hcode : family ≠ .css ∧ family ≠ .html) (language : Option Text)
    (lines : List Text) :
    ∃ kept, Thinned lines kept ∧ (settle family language lines = kept ∨
      settle family language lines =
        align (family.commentMarker?.getD "//".toList) kept) := by
  have hsqueeze : Thinned lines (squeeze lines) := thinned_squeezeFrom false lines
  have hdrop : Thinned (squeeze lines) (dropBetweenBraces (squeeze lines)) :=
    thinned_dropBetweenBracesFrom none (squeeze lines)
  unfold settle
  split
  next => exact absurd rfl hcode.1
  next => exact absurd rfl hcode.2
  next =>
      dsimp only
      split
      next => exact ⟨_, hsqueeze, .inl rfl⟩
      next => exact ⟨_, hsqueeze.trans hdrop, .inr rfl⟩

theorem body_settle (family : Family) (language : Option Text) (lines : List Text) :
    body (settle family language lines) = body lines := by
  by_cases hcss : family = .css
  · subst hcss
    exact body_spaceBlocks lines
  · by_cases hhtml : family = .html
    · subst hhtml
      rfl
    · obtain ⟨kept, hthinned, hkept | haligned⟩ := settle_cases ⟨hcss, hhtml⟩ language lines
      · rw [hkept, hthinned.body_eq]
      · rw [haligned, ← hthinned.body_eq]
        exact (align_keeps _ kept).body_eq

theorem settle_subset (family : Family) (language : Option Text) (lines : List Text) :
    (settle family language lines).flatten ⊆ lines.flatten := by
  by_cases hcss : family = .css
  · subst hcss
    exact fun c hc => flatten_spaceBlocks lines ▸ hc
  · by_cases hhtml : family = .html
    · subst hhtml
      exact List.Subset.refl _
    · obtain ⟨kept, hthinned, hkept | haligned⟩ := settle_cases ⟨hcss, hhtml⟩ language lines
      · rw [hkept]
        exact hthinned.sublist.flatten.subset
      · rw [haligned]
        exact fun c hc => hthinned.sublist.flatten.subset ((align_drawnFrom _ kept).text hc)

end SourceLayout.Layout
