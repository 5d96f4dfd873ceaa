import SourceLayout.Proofs.Command.File
import SourceLayout.Proofs.Editor.Synchronization
import SourceLayout.Proofs.Format
import SourceLayout.Proofs.Layout.Reading

/-!
# The command and the editor agree

Documents that are read alike are formatted alike. So it does not matter that the command turns all
line ends of a file into line feeds as it reads it, and that an editor keeps them: if no carriage
return stands alone, all that a line end loses is a blank at the end of a line, and both of them get
the same formatted text.
-/

namespace SourceLayout

/-! ### Formatting what is read alike -/

section

variable {language text text' : Text}
  (halike : ∀ family, Language.family? language = some family →
    Layout.Alike family text.lines text'.lines)

include halike

theorem format_congr (unit : IndentUnit) :
    format (some language) unit text = format (some language) unit text' := by
  rw [format, format, Option.getD_some]
  cases hfamily : Language.family? language with
  | none => rfl
  | some family =>
      dsimp only
      rw [Layout.document, Layout.document, (halike family hfamily).indent_eq]

/-- Nor does a machine need more room for the one than for the other. -/
theorem formatWithin_congr [Machine] (unit : IndentUnit) :
    formatWithin (some language) unit text = formatWithin (some language) unit text' := by
  rw [formatWithin, formatWithin, Option.getD_some]
  cases hfamily : Language.family? language with
  | none => rfl
  | some family =>
      dsimp only
      rw [(halike family hfamily).slots_eq]

end

/-! ### Line ends -/

namespace Text

/-- Whether a carriage return stands before something else than a line feed. -/
def hasLoneReturn : Text → Bool
  | [] => false
  | '\r' :: '\n' :: cs => hasLoneReturn cs
  | c :: cs => c == '\r' || hasLoneReturn cs

/-- Without lone carriage returns the lines lose at most the one at their end. -/
theorem lines_unifyBreaks {t : Text} (ht : hasLoneReturn t = false) :
    List.Forall₂ (fun line line' => line = line' ∨ line = line' ++ ['\r'])
      t.lines (unifyBreaks t).lines := by
  fun_induction hasLoneReturn t with
  | case1 => exact .cons (.inl rfl) .nil
  | case2 cs ih => exact .cons (.inr rfl) (ih ht)
  | case3 c cs _ ih =>
      rw [Bool.or_eq_false_iff, beq_eq_false_iff_ne] at ht
      obtain ⟨hc, hcs⟩ := ht
      rw [unifyBreaks_cons hc]
      by_cases hbreak : c = '\n'
      · subst hbreak
        rw [Layout.lines_newline_cons, Layout.lines_newline_cons]
        exact .cons (.inl rfl) (ih hcs)
      · obtain ⟨first, rest, hlines⟩ := Layout.exists_lines cs
        obtain ⟨first', rest', hlines'⟩ := Layout.exists_lines (unifyBreaks cs)
        have hlater := ih hcs
        rw [hlines, hlines'] at hlater
        rw [Layout.lines_cons hbreak hlines, Layout.lines_cons hbreak hlines']
        cases hlater with
        | cons hfirst hrest =>
            refine .cons ?_ hrest
            rcases hfirst with rfl | rfl
            · exact .inl rfl
            · exact .inr rfl

end Text

namespace Layout

theorem respelled_of_return {family : Family} {line line' : Text}
    (h : line = line' ∨ line = line' ++ ['\r']) :
    Relation.EqvGen (Respelled family) line line' := by
  rcases h with rfl | rfl
  · exact .refl line
  · exact .rel _ _ (.ended line' (by decide))

theorem alike_unifyBreaks {t : Text} (ht : Text.hasLoneReturn t = false) (family : Family) :
    Alike family t.lines (Text.unifyBreaks t).lines :=
  alike_of_sameLine ((Text.lines_unifyBreaks ht).imp fun _ _ hline =>
    sameLine_of_eqvGen (respelled_of_return hline))

end Layout

/-! ### The formatted text -/

/-- The formatted text, if formatting succeeded. -/
def Outcome.formatted? (outcome : Outcome) : Option Text :=
  if outcome.succeeded then some outcome.text else none

namespace Options

variable [Machine] {options : Options} {language : Option Text} {path : Option String} {text : Text}

/-- Options give the same formatted text where a machine does. -/
theorem formatted?_congr {text' : Text}
    (htext : ∀ unit, formatWithin language unit text = formatWithin language unit text')
    (path' : Option String) :
    (options.format language path text).map Outcome.formatted? =
      (options.format language path' text').map Outcome.formatted? := by
  have hrun : options.run language text = options.run language text' := by
    rw [run, run]
    exact congrArg (options.unit >>= ·) (funext htext)
  rw [Options.format, Options.format, hrun]
  cases options.run language text' with
  | error failure => cases failure <;> rfl
  | ok formatted =>
      dsimp only
      cases options.finish formatted <;> rfl

end Options

/-! ### Files -/

namespace Command

section

variable [Machine] {run : FormatRun} {item : Item} {progress : Progress} {text : Text}
  {outcome : Outcome}
  (hread : progress.tree.text? item.path = some text)
  (hformat : run.options.format (some item.language) (some item.shown.string)
    (Text.unifyBreaks text) = .ok outcome)
  (hsucceeded : outcome.succeeded = true)

include hread hformat hsucceeded

/-- A run that writes leaves in a file that can be written what is read as the formatted text. -/
theorem FormatRun.exists_written (hcheck : run.request.check = false)
    (hdiff : run.request.diff = false) (hrefusal : progress.tree.refusal? item.path = none)
    (tally : Tally) :
    ∃ written tally', run.file item progress tally = .ok (written, tally') ∧
      (written.tree.text? item.path).map Text.unifyBreaks = some outcome.text := by
  have htext : item.text? progress.tree = some (Text.unifyBreaks text) := by
    rw [Item.text?, hread, Option.map_some]
  have hwrites : run.writes = true := by
    rw [writes, hcheck, hdiff]
    rfl
  obtain ⟨written, htree, hfile⟩ := run.file_spec item progress tally
  have hafter := text?_rewrite_self hwrites hrefusal
  rw [← htree, htext, Option.map_some, formatted_of_format hformat] at hafter
  have hstop : run.stop? progress.tree item = none := by
    rw [stop?, fate, htext]
    dsimp only
    rw [hformat, Fate.ofResult, hsucceeded]
    cases outcome.changed <;> simp [hrefusal]
  exact ⟨written, _, by rw [hfile, hstop], hafter⟩

end

end Command

/-! ### Two ways to one text -/

section

variable [Machine] {language : Text} {session : Session} {uri : Text} {document : Document}
  (hopen : session.document? uri = some document)
  (hlanguage : document.effective? = some language)
  (hreturn : Text.hasLoneReturn document.text = false)

include hopen hlanguage hreturn

/-- What the editor gets from the text with its line ends, the command gets from the text without
them. -/
theorem Session.formatted?_format (options : Options) (path : Option String) :
    (session.format uri (some options)).map (fun reply => reply.2.bind Outcome.formatted?) =
      (options.format (some language) path (Text.unifyBreaks document.text)).map
        Outcome.formatted? := by
  have houtcome : session.format uri (some options) =
      (options.format (some language) (some document.path.string) document.text).map
        fun outcome => (session.putErrors uri outcome.errors, some outcome) := by
    rw [Session.format, hopen]
    dsimp only
    rw [outcome, hlanguage]
    dsimp only [Option.getD_some]
    cases options.format (some language) (some document.path.string) document.text <;> rfl
  have hsame : ∀ unit, formatWithin (some language) unit document.text =
      formatWithin (some language) unit (Text.unifyBreaks document.text) :=
    formatWithin_congr fun family _ => Layout.alike_unifyBreaks hreturn family
  calc (session.format uri (some options)).map (fun reply => reply.2.bind Outcome.formatted?)
      = (options.format (some language) (some document.path.string) document.text).map
          Outcome.formatted? := by
        rw [houtcome]
        cases options.format (some language) (some document.path.string) document.text <;> rfl
    _ = _ := Options.formatted?_congr hsame path

theorem Session.exists_written {run : Command.FormatRun} {item : Command.Item}
    (hitem : item.language = language) (hcheck : run.request.check = false)
    (hdiff : run.request.diff = false) {progress : Command.Progress}
    (hread : progress.tree.text? item.path = some document.text)
    (hrefusal : progress.tree.refusal? item.path = none) {formatted : Session} {outcome : Outcome}
    (hformat : session.format uri (some run.options) = .ok (formatted, some outcome))
    (hsucceeded : outcome.succeeded = true) (tally : Command.Tally) :
    ∃ written tally', run.file item progress tally = .ok (written, tally') ∧
      (written.tree.text? item.path).map Text.unifyBreaks = some outcome.text := by
  subst hitem
  have hsame := Session.formatted?_format hopen hlanguage hreturn run.options
    (some item.shown.string)
  have hformatted : outcome.formatted? = some outcome.text := if_pos hsucceeded
  rw [hformat, eq_comm] at hsame
  obtain ⟨outcome', houtcome', htext⟩ := exists_of_map_eq_ok hsame
  dsimp only [Option.bind_some] at htext
  rw [hformatted, Outcome.formatted?] at htext
  split at htext
  next hsucceeded' =>
      rw [← htext]
      exact Command.FormatRun.exists_written hread houtcome' hsucceeded' hcheck hdiff hrefusal tally
  next => cases htext

end

/-- **Only part of the layout is read.** Documents that are read alike are formatted alike, under
every unit. So blanks at the end of lines and the spelling of tabs do not matter, nor do line ends
without lone carriage returns. And so an editor that keeps the line ends of a file gets the same
formatted text as the command that unifies them, or neither gets one; and this is what the command
leaves in the file, if it can write it. -/
theorem format_reads_layout [Machine] (language : Text) (family : Family)
    (hfamily : Language.family? language = some family) :
    (∀ text text', Layout.Alike family text.lines text'.lines →
      ∀ unit, format (some language) unit text = format (some language) unit text') ∧
    (∀ text text',
      List.Forall₂ (Relation.EqvGen (Layout.Respelled family)) text.lines text'.lines →
      ∀ unit, format (some language) unit text = format (some language) unit text') ∧
    (∀ text, Text.hasLoneReturn text = false → ∀ unit,
      format (some language) unit (Text.unifyBreaks text) = format (some language) unit text) ∧
    ∀ (session : Session) (uri : Text) (document : Document),
      session.document? uri = some document → document.effective? = some language →
      Text.hasLoneReturn document.text = false →
      (∀ options path,
        (session.format uri (some options)).map (fun reply => reply.2.bind Outcome.formatted?) =
          (options.format (some language) path (Text.unifyBreaks document.text)).map
            Outcome.formatted?) ∧
      ∀ (run : Command.FormatRun) (item : Command.Item) (progress : Command.Progress)
          (tally : Command.Tally) (formatted : Session) (outcome : Outcome),
        item.language = language → run.request.check = false → run.request.diff = false →
        progress.tree.text? item.path = some document.text →
        progress.tree.refusal? item.path = none →
        session.format uri (some run.options) = .ok (formatted, some outcome) →
        outcome.succeeded = true →
        ∃ written tally', run.file item progress tally = .ok (written, tally') ∧
          (written.tree.text? item.path).map Text.unifyBreaks = some outcome.text := by
  have halike : ∀ text text' : Text, Layout.Alike family text.lines text'.lines → ∀ unit,
      format (some language) unit text = format (some language) unit text' := by
    intro text text' h
    refine format_congr fun other hother => ?_
    obtain rfl := Option.some.inj (hfamily.symm.trans hother)
    exact h
  refine ⟨halike, fun text text' h => ?_, fun text hreturn unit => ?_,
    fun session uri document hopen hlanguage hreturn => ⟨?_, ?_⟩⟩
  · exact halike text text' (Layout.alike_of_sameLine (h.imp fun _ _ => Layout.sameLine_of_eqvGen))
  · exact (halike text _ (Layout.alike_unifyBreaks hreturn family) unit).symm
  · exact Session.formatted?_format hopen hlanguage hreturn
  · intro run item progress tally formatted outcome hitem hcheck hdiff hread hrefusal hformat
      hsucceeded
    exact Session.exists_written hopen hlanguage hreturn hitem hcheck hdiff hread hrefusal hformat
      hsucceeded tally

/-- A file with returns and a tab, read by a command that writes and open in an editor. -/
theorem format_reads_layout_javascript :
    (∀ unit, format (some "javascript".toList) unit "f(a,\r\n\tb)\r\n".toList =
      format (some "javascript".toList) unit "f(a,\n   b)  \n".toList) ∧
    (∀ unit, format (some "javascript".toList) unit "\tb \r".toList =
      format (some "javascript".toList) unit "  b".toList) ∧
    ∃ formatted outcome written tally,
      (Session.opening "/a.js".toList "javascript".toList 1 "f(a,\r\n\tb)\r\n".toList).format
          "/a.js".toList (some {}) = .ok (formatted, some outcome) ∧
      Command.FormatRun.file ⟨⟨{}, ⟨['/'], []⟩, [], [], "", "", "", .stopped⟩, .warning, {}, {}⟩
          ⟨⟨[], ["a.js".toList]⟩, ⟨['/'], ["a.js".toList]⟩, "javascript".toList⟩
          { tree := { files := [(⟨['/'], ["a.js".toList]⟩,
            (String.ofList "f(a,\r\n\tb)\r\n".toList).toUTF8)] } } {} = .ok (written, tally) ∧
      outcome.text = "f(a,\n    b)\n".toList ∧
      (written.tree.text? ⟨['/'], ["a.js".toList]⟩).map Text.unifyBreaks = some outcome.text := by
  obtain ⟨halike, hrespelled, _, hboth⟩ :=
    format_reads_layout "javascript".toList .javascript (by decide +kernel)
  refine ⟨halike _ _ ⟨?_, fun _ => ?_, fun _ => by decide +kernel⟩, hrespelled _ _ ?_, ?_⟩
  · rw [Layout.SameTrims]
    decide +kernel
  · decide +kernel
  · -- The blanks at the end go first, and then the tab becomes two spaces.
    refine .cons (.trans _ ['\t', 'b'] _ (.rel _ _ ?_) (.rel _ _ ?_)) .nil
    · exact @Layout.Respelled.ended .javascript ['\t', 'b'] [' ', '\r'] (by decide)
    · exact @Layout.Respelled.spread .javascript [] (by decide) ['b']
  · obtain ⟨formatted, outcome, hformat, hview⟩ : ∃ formatted outcome,
        (Session.opening "/a.js".toList "javascript".toList 1 "f(a,\r\n\tb)\r\n".toList).format
          "/a.js".toList (some {}) = .ok (formatted, some outcome) ∧
        (outcome.text, outcome.succeeded) = ("f(a,\n    b)\n".toList, true) :=
      Session.exists_outcome (by decide +kernel)
    obtain ⟨htext, hsucceeded⟩ := Prod.mk.inj hview
    obtain ⟨_, hwritten⟩ := hboth _ _ (.make "/a.js".toList "javascript".toList 1
        "f(a,\r\n\tb)\r\n".toList) (Session.document?_putDocument ..) (by decide +kernel)
      (by decide +kernel)
    obtain ⟨written, tally, hfile, hafter⟩ := hwritten
      ⟨⟨{}, ⟨['/'], []⟩, [], [], "", "", "", .stopped⟩, .warning, {}, {}⟩
      ⟨⟨[], ["a.js".toList]⟩, ⟨['/'], ["a.js".toList]⟩, "javascript".toList⟩
      { tree := { files := [(⟨['/'], ["a.js".toList]⟩,
        (String.ofList "f(a,\r\n\tb)\r\n".toList).toUTF8)] } } {} formatted outcome rfl rfl rfl
      (by
        rw [Tree.text?, Tree.read?, Tree.bytes?, List.find?_cons_of_pos rfl, Option.map_some,
          Option.filter_some, Tree.isReadable, List.all_nil, if_pos rfl, Option.bind_some,
          Tree.fromUTF8?_toUTF8, Option.map_some, String.toList_ofList]
        rfl)
      rfl hformat hsucceeded
    exact ⟨formatted, outcome, written, tally, hformat, hfile, htext, hafter⟩

end SourceLayout
