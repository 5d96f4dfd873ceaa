import SourceLayout.Proofs.Format
import SourceLayout.Proofs.Room

/-!
# The outcome of formatting a document

Formatting under options answers faithfully or not at all. It does not answer where a line holds
marks of its own that name no literal, where the machine has no room for the indentation or for a
text that is written with it, and where a bad tab size is nested too deeply to be shown.
-/

namespace SourceLayout

open Layout (Layable)
open Literal (markOpen numberLimit)

/-- An outcome that tells the truth: it has an error, and then exactly one and the old text, if the
language is unknown or the tab size is no positive number, and else it tells whether the text has
changed. -/
structure Outcome.Faithful (options : Options) (language : Option Text) (text : Text)
    (outcome : Outcome) : Prop where
  errors_iff : outcome.errors ≠ [] ↔
    Language.isSupported (language.getD []) = false ∨ options.tabSize.positive? = none
  failed : outcome.errors ≠ [] →
    outcome.text = text ∧ outcome.changed = false ∧ outcome.errors.length = 1
  changed_iff : outcome.errors = [] → (outcome.changed = true ↔ outcome.text ≠ text)

namespace Options

variable {options : Options} {language : Option Text} {path : Option String}
  {text formatted : Text} {size : Nat}

/-- One level of indentation under a good tab size. -/
def level (options : Options) (size : Nat) : IndentUnit :=
  match options.style with
  | .spaces => { text := [' '], times := size }
  | .tabs => { text := ['\t'] }

/-- A formatted text as the options want it to end. -/
def ended (options : Options) (formatted : Text) : Text :=
  if options.finalNewline && !formatted.isEmpty && !formatted.endsWith ['\n'] then
    formatted ++ ['\n']
  else formatted

theorem pos_of_positive? {value : Value} (hsize : value.positive? = some size) : 0 < size := by
  unfold Value.positive? at hsize
  split at hsize
  next number =>
      split at hsize
      next hnumber =>
          obtain rfl := Option.some.inj hsize
          omega
      next => cases hsize
  next => cases hsize

section

variable [Machine]

/-- The room that formatting a text takes up under a good tab size: for one level of spaces, for
every line with its indentation, for all lines in one text, and for the line feed at the end. -/
structure Fits (options : Options) (size : Nat) (language : Option Text) (text : Text) : Prop where
  level : options.style = .spaces → Holds size
  laid : ∀ family, Language.family? (language.getD []) = some family →
    Layout.Fits family (some (Language.normalize (language.getD []))) (options.level size)
      text.lines
  ended : ∀ formatted, SourceLayout.format language (options.level size) text = .ok formatted →
    Holds (options.ended formatted).length

/-- What formatting needs to give an outcome at all. A bad tab size must be one that can be shown.
With a good one, there must be room for what is written, and every line must be one whose literals
can be restored. -/
def Answers (options : Options) (language : Option Text) (text : Text) : Prop :=
  match options.tabSize.positive? with
  | none => options.tabSize.exceeded? Machine.writtenDepth = none
  | some size =>
      options.Fits size language text ∧
        ∀ family, Language.family? (language.getD []) = some family →
          ∀ line ∈ text.lines, Layable family (some (Language.normalize (language.getD []))) line

/-! ### The indentation -/

theorem unit_eq_ok_iff (hsize : options.tabSize.positive? = some size) {unit : IndentUnit} :
    options.unit = .ok unit ↔
      (options.style = .spaces → Holds size) ∧ options.level size = unit := by
  simp only [Options.unit, unitOf, hsize, level]
  cases hstyle : options.style with
  | tabs => simp
  | spaces => simpa using reserve_map_eq_ok_iff

theorem isLimit_unit (hsize : options.tabSize.positive? = some size) :
    FailsOnly Failure.IsLimit options.unit := by
  simp only [Options.unit, unitOf, hsize]
  cases options.style with
  | tabs => exact .ok _
  | spaces => exact (isLimit_reserve _ _).map _

theorem unit_ne_ok (hsize : options.tabSize.positive? = none) (unit : IndentUnit) :
    options.unit ≠ .ok unit := by
  simp only [Options.unit, unitOf, hsize]
  split <;> simp

/-- One level is a tab, or as many spaces as were asked for. -/
theorem unitOf_eq_ok {spaces : Bool} {tabSize : Value} {unit : IndentUnit}
    (hunit : unitOf spaces tabSize = .ok unit) :
    (unit.text = [' '] ∨ unit.text = ['\t']) ∧ 0 < unit.times := by
  rw [unitOf] at hunit
  split at hunit
  next => split at hunit <;> cases hunit
  next size hsize =>
      split at hunit
      next =>
          obtain rfl := Except.ok.inj hunit
          exact ⟨.inr rfl, Nat.one_pos⟩
      next =>
          obtain ⟨_, rfl⟩ := reserve_map_eq_ok_iff.mp hunit
          exact ⟨.inl rfl, pos_of_positive? hsize⟩

/-! ### Runs -/

theorem run_of_unit {unit : IndentUnit} (hunit : options.unit = .ok unit) :
    options.run language text = formatWithin language unit text := by
  rw [run, hunit]
  rfl

theorem run_of_error {failure : Failure} (hunit : options.unit = .error failure) :
    options.run language text = .error failure := by
  rw [run, hunit]
  rfl

theorem finish_eq_ok_iff {finished : Text} (hholds : Holds formatted.length) :
    options.finish formatted = .ok finished ↔
      Holds (options.ended formatted).length ∧ options.ended formatted = finished := by
  rw [finish, ended]
  split
  next =>
      rw [List.length_append, List.length_singleton]
      exact reserve_map_eq_ok_iff
  next => rw [Except.ok.injEq, and_iff_right hholds]

theorem isLimit_finish (formatted : Text) :
    FailsOnly Failure.IsLimit (options.finish formatted) := by
  rw [finish]
  split
  · exact (isLimit_reserve _ _).map _
  · exact .ok _

/-- What a machine has formatted, it can hold. -/
theorem holds_of_formatWithin {unit : IndentUnit}
    (hformat : formatWithin language unit text = .ok formatted) : Holds formatted.length := by
  cases hfamily : Language.family? (language.getD []) with
  | none => rw [formatWithin_of_none hfamily] at hformat; cases hformat
  | some family =>
      obtain ⟨hplain, hfits⟩ := (formatWithin_eq_ok_iff hfamily).mp hformat
      obtain ⟨laid, hlaid, rfl⟩ := (format_eq_ok_iff hfamily).mp hplain
      exact (hfits laid hlaid).2.mono (Layout.collapseFrom_sublist 0 _).length_le

theorem holds_of_run (hrun : options.run language text = .ok formatted) :
    Holds formatted.length := by
  obtain ⟨unit, _, hformat⟩ := bind_eq_ok_iff.mp hrun
  exact holds_of_formatWithin hformat

/-- A run that is reported names a bad tab size or an unknown language. -/
theorem reason_of_reported {diagnostic : Diagnostic}
    (hrun : options.run language text = .error (.reported diagnostic)) :
    Language.isSupported (language.getD []) = false ∨ options.tabSize.positive? = none := by
  cases hsize : options.tabSize.positive? with
  | none => exact .inr rfl
  | some size =>
      cases hfamily : Language.family? (language.getD []) with
      | none => exact .inl (by simp [Language.isSupported, hfamily])
      | some family =>
          have hunexplained : FailsOnly Failure.Unexplained (options.run language text) :=
            (isLimit_unit hsize).unexplained.bind fun _ => unexplained_formatWithin hfamily
          exact absurd rfl (hunexplained _ hrun diagnostic)

/-- A run that succeeds has a good tab size and a known language. -/
theorem no_reason_of_ok (hrun : options.run language text = .ok formatted) :
    ¬(Language.isSupported (language.getD []) = false ∨ options.tabSize.positive? = none) := by
  obtain ⟨unit, hunit, hformat⟩ := bind_eq_ok_iff.mp hrun
  rintro (hlanguage | hsize)
  · have hfamily : Language.family? (language.getD []) = none := by
      simpa [Language.isSupported] using hlanguage
    rw [formatWithin_of_none hfamily] at hformat
    cases hformat
  · exact unit_ne_ok hsize unit hunit

/-! ### Outcomes -/

/-- An outcome reports a run, or comes from one that succeeded. -/
theorem format_cases {outcome : Outcome}
    (hformat : options.format language path text = .ok outcome) :
    (∃ diagnostic error, options.run language text = .error (.reported diagnostic) ∧
      outcome = { text := text, changed := false, errors := [error] }) ∨
    ∃ formatted finished warnings, options.run language text = .ok formatted ∧
      options.finish formatted = .ok finished ∧
      outcome = { text := finished, changed := finished != text, warnings := warnings } := by
  rw [Options.format] at hformat
  split at hformat
  next diagnostic hrun =>
      cases hformat
      exact .inl ⟨diagnostic, _, hrun, rfl⟩
  next => cases hformat
  next formatted hrun =>
      cases hfinish : options.finish formatted with
      | error failure => simp [hfinish, Except.map] at hformat
      | ok finished =>
          rw [hfinish] at hformat
          cases hformat
          exact .inr ⟨formatted, finished, _, hrun, hfinish, rfl⟩

/-- Whether options or a language are refused with an explanation. No text is needed for that. -/
def Rejects (options : Options) (language : Option Text) : Prop :=
  (∃ diagnostic, options.unit = .error (.reported diagnostic)) ∨
    (∃ unit, options.unit = .ok unit) ∧ Language.isSupported (language.getD []) = false

theorem rejects_iff_run (text : Text) :
    options.Rejects language ↔
      ∃ diagnostic, options.run language text = .error (.reported diagnostic) := by
  rw [Rejects]
  cases hunit : options.unit with
  | error failure => simp [run_of_error hunit]
  | ok unit =>
      rw [run_of_unit hunit]
      cases hfamily : Language.family? (language.getD []) with
      | none => simp [formatWithin_of_none hfamily, unsupportedLanguage, Language.isSupported,
          hfamily]
      | some family =>
          have hunexplained := @unexplained_formatWithin family language unit _ text hfamily
          simp only [Language.isSupported, hfamily, Option.isSome_some, Bool.true_eq_false,
            and_false, reduceCtorEq, exists_false, or_false, false_iff, not_exists]
          exact fun diagnostic hrun => hunexplained _ hrun diagnostic rfl

/-- What is rejected is rejected for every text. -/
theorem rejects_iff (path : Option String) (text : Text) :
    options.Rejects language ↔
      ∃ outcome, options.format language path text = .ok outcome ∧ outcome.succeeded = false := by
  rw [rejects_iff_run text]
  constructor
  · rintro ⟨diagnostic, hrun⟩
    rw [Options.format, hrun]
    exact ⟨_, rfl, rfl⟩
  · rintro ⟨outcome, hformat, hfailed⟩
    rcases format_cases hformat with ⟨diagnostic, _, hrun, _⟩ | ⟨_, _, _, _, _, rfl⟩
    · exact ⟨diagnostic, hrun⟩
    · cases hfailed

/-- Whatever formatting returns tells the truth. -/
theorem faithful_of_format {outcome : Outcome}
    (hformat : options.format language path text = .ok outcome) :
    outcome.Faithful options language text := by
  rcases format_cases hformat with ⟨diagnostic, error, hrun, rfl⟩ |
    ⟨formatted, finished, warnings, hrun, _, rfl⟩
  · exact ⟨by simpa using reason_of_reported hrun, by simp, by simp⟩
  · exact ⟨by simpa using no_reason_of_ok hrun, by simp, by simp⟩

/-- There is an outcome if the run is reported, or succeeds and leaves room for its end. -/
theorem exists_format_iff_run :
    (∃ outcome, options.format language path text = .ok outcome) ↔
      (∃ formatted, options.run language text = .ok formatted ∧
        Holds (options.ended formatted).length) ∨
      ∃ diagnostic, options.run language text = .error (.reported diagnostic) := by
  constructor
  · rintro ⟨outcome, hformat⟩
    rcases format_cases hformat with ⟨diagnostic, _, hrun, _⟩ | ⟨formatted, _, _, hrun, hfinish, _⟩
    · exact .inr ⟨diagnostic, hrun⟩
    · exact .inl ⟨formatted, hrun, ((finish_eq_ok_iff (holds_of_run hrun)).mp hfinish).1⟩
  · rintro (⟨formatted, hrun, hholds⟩ | ⟨diagnostic, hrun⟩)
    · have hfinish := (finish_eq_ok_iff (holds_of_run hrun)).mpr ⟨hholds, rfl⟩
      rw [Options.format, hrun]
      dsimp only
      rw [hfinish]
      exact ⟨_, rfl⟩
    · rw [Options.format, hrun]
      exact ⟨_, rfl⟩

/-- Under a good tab size a run for a known language succeeds if its lines can be laid out and
there is room. -/
theorem run_eq_ok_iff {family : Family} (hsize : options.tabSize.positive? = some size)
    (hfamily : Language.family? (language.getD []) = some family) :
    options.run language text = .ok formatted ↔
      (options.style = .spaces → Holds size) ∧
        SourceLayout.format language (options.level size) text = .ok formatted ∧
        Layout.Fits family (some (Language.normalize (language.getD []))) (options.level size)
          text.lines := by
  rw [run, bind_eq_ok_iff]
  simp only [unit_eq_ok_iff hsize, and_assoc, exists_and_left, exists_eq_left',
    formatWithin_eq_ok_iff hfamily]

/-- A bad tab size is reported if it can be shown. -/
theorem exists_format_iff_of_bad_size (hsize : options.tabSize.positive? = none) :
    (∃ outcome, options.format language path text = .ok outcome) ↔
      options.tabSize.exceeded? Machine.writtenDepth = none := by
  have hrun : ∀ formatted, options.run language text ≠ .ok formatted :=
    fun formatted hrun => no_reason_of_ok hrun (.inr hsize)
  simp only [exists_format_iff_run, hrun, false_and, exists_false, false_or]
  cases hshown : options.tabSize.exceeded? Machine.writtenDepth with
  | none =>
      obtain ⟨diagnostic, hunit⟩ : ∃ diagnostic, options.unit = .error (.reported diagnostic) := by
        simp [Options.unit, unitOf, hsize, Value.form?, hshown]
      exact iff_of_true ⟨diagnostic, run_of_error hunit⟩ rfl
  | some limit =>
      have hunit : options.unit = .error (.beyond limit) := by
        simp [Options.unit, unitOf, hsize, Value.form?, hshown]
      simp [run_of_error hunit]

/-- An unknown language is reported once there is room for the indentation. -/
theorem exists_format_iff_of_unknown (hsize : options.tabSize.positive? = some size)
    (hfamily : Language.family? (language.getD []) = none) :
    (∃ outcome, options.format language path text = .ok outcome) ↔
      (options.style = .spaces → Holds size) := by
  rw [exists_format_iff_run]
  cases hunit : options.unit with
  | ok unit =>
      have hrun : options.run language text = .error (unsupportedLanguage language) := by
        rw [run_of_unit hunit, formatWithin_of_none hfamily]
      exact iff_of_true (.inr ⟨_, hrun⟩) ((unit_eq_ok_iff hsize).mp hunit).1
  | error failure =>
      have hunexplained := (isLimit_unit hsize).unexplained failure hunit
      have hroom : ¬(options.style = .spaces → Holds size) := by
        intro hroom
        rw [(unit_eq_ok_iff hsize).mpr ⟨hroom, rfl⟩] at hunit
        cases hunit
      refine iff_of_false ?_ hroom
      rw [run_of_error hunit]
      rintro (⟨formatted, hrun, _⟩ | ⟨diagnostic, hrun⟩)
      · cases hrun
      · exact hunexplained diagnostic (Except.error.inj hrun)

/-- A text in a known language is formatted if its lines can be laid out and there is room. -/
theorem exists_format_iff_of_known {family : Family} (hsize : options.tabSize.positive? = some size)
    (hfamily : Language.family? (language.getD []) = some family) :
    (∃ outcome, options.format language path text = .ok outcome) ↔
      options.Fits size language text ∧
        ∀ line ∈ text.lines, Layable family (some (Language.normalize (language.getD []))) line := by
  have hreported : ∀ diagnostic, options.run language text ≠ .error (.reported diagnostic) := by
    intro diagnostic hrun
    rcases reason_of_reported hrun with hlanguage | hbad
    · simp [Language.isSupported, hfamily] at hlanguage
    · rw [hsize] at hbad
      cases hbad
  simp only [exists_format_iff_run, hreported, exists_false, or_false,
    run_eq_ok_iff hsize hfamily, ← exists_format_iff hfamily (options.level size) text]
  constructor
  · rintro ⟨formatted, ⟨hlevel, hformat, hlaid⟩, hended⟩
    refine ⟨⟨hlevel, fun other hother => ?_, fun other hother => ?_⟩, formatted, hformat⟩
    · rw [hfamily] at hother
      cases hother
      exact hlaid
    · rw [hformat] at hother
      cases hother
      exact hended
  · rintro ⟨hfits, formatted, hformat⟩
    exact ⟨formatted, ⟨hfits.level, hformat, hfits.laid family hfamily⟩,
      hfits.ended formatted hformat⟩

theorem exists_format_iff_answers :
    (∃ outcome, options.format language path text = .ok outcome) ↔
      options.Answers language text := by
  rw [Answers]
  split
  next hsize => exact exists_format_iff_of_bad_size hsize
  next size hsize =>
      cases hfamily : Language.family? (language.getD []) with
      | none =>
          have hformat : ∀ unit formatted,
              SourceLayout.format language unit text ≠ .ok formatted := by
            simp [SourceLayout.format, hfamily]
          rw [exists_format_iff_of_unknown hsize hfamily]
          constructor
          · exact fun hlevel => ⟨⟨hlevel, by simp [hfamily],
              fun formatted h => absurd h (hformat _ formatted)⟩, by simp⟩
          · exact fun hanswers => hanswers.1.level
      | some family =>
          simp only [exists_format_iff_of_known hsize hfamily, Option.some.injEq, forall_eq']

/-- There must be room for all levels of every line. -/
theorem Answers.levels (hanswers : options.Answers language text)
    (hspaces : options.style = .spaces) (hsize : options.tabSize.positive? = some size)
    {family : Family} (hfamily : Language.family? (language.getD []) = some family)
    {slot : Layout.Slot} (hslot : .ok slot ∈
      Layout.slots family (some (Language.normalize (language.getD []))) text.lines) :
    Holds (slot.level * size) := by
  simp only [Answers, hsize] at hanswers
  obtain ⟨laid, hlaid⟩ := (@Layout.exists_indent_iff family _ (options.level size) _).mpr
    (hanswers.2 family hfamily)
  have hlevels := (hanswers.1.laid family hfamily).levels hlaid hslot
  rwa [level, hspaces, IndentUnit.length, List.length_singleton, Nat.mul_one] at hlevels

/-- **Formatting under options answers faithfully or not at all**, and this is when it answers.
There must be room for all levels of every line. Lines without marks of their own are never the
reason that there is no answer, and a line that is a mark always is. -/
theorem format_faithful_iff (options : Options) (language : Option Text) (path : Option String)
    (text : Text) :
    ((∃ outcome, options.format language path text = .ok outcome ∧
        outcome.Faithful options language text) ↔ options.Answers language text) ∧
      (options.Answers language text → options.style = .spaces →
        ∀ size, options.tabSize.positive? = some size →
        ∀ family, Language.family? (language.getD []) = some family →
        ∀ slot, .ok slot ∈ Layout.slots family (some (Language.normalize (language.getD [])))
            text.lines →
          Holds (slot.level * size)) ∧
      (∀ family line, markOpen ∉ line ∧ line.length ≤ numberLimit →
        Layable family language line) ∧
      ∀ family number, ¬Layable family language (Literal.mark number) := by
  refine ⟨?_, ?_, ?_, fun family number => Layout.not_layable_mark family language number⟩
  · rw [← @exists_format_iff_answers options language path text]
    constructor
    · rintro ⟨outcome, hformat, _⟩
      exact ⟨outcome, hformat⟩
    · rintro ⟨outcome, hformat⟩
      exact ⟨outcome, hformat, faithful_of_format hformat⟩
  · intro hanswers hspaces size hsize family hfamily slot hslot
    exact hanswers.levels hspaces hsize hfamily hslot
  · rintro family line ⟨hplain, hlength⟩
    exact .inr (.inr (Line.restorable_of_plain family language hplain hlength))

end

end Options

end SourceLayout
