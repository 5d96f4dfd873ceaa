import SourceLayout.Command.Run
import SourceLayout.Proofs.Plain
import SourceLayout.Proofs.Workspace.Tree

/-!
# What a run does to one file

A file cannot be read, or cannot be formatted, or is formatted already, or is changed. Only in the
last case is it written, and only if the run neither checks nor shows differences. What has become
of a file depends on its own bytes, and a file that was written can be read as well as before. The
run stops at a file that there is no room for or that cannot be written.
-/

namespace SourceLayout

/-! ### Plain trees -/

namespace Tree

/-- Every text that can be read is plain. -/
def Plain (tree : Tree) : Prop :=
  ∀ path text, tree.text? path = some text → text.Plain

theorem plain_of_files {tree : Tree}
    (hfiles : ∀ file ∈ tree.files, ∀ text, String.fromUTF8? file.2 = some text →
      Text.Plain text.toList) : tree.Plain := by
  intro path text htext
  rw [text?, Option.map_eq_some_iff] at htext
  obtain ⟨content, hcontent, rfl⟩ := htext
  obtain ⟨bytes, hread, hdecoded⟩ := Option.bind_eq_some_iff.mp hcontent
  obtain ⟨file, hfile, rfl⟩ := Option.map_eq_some_iff.mp (Option.filter_eq_some_iff.mp hread).1
  exact hfiles file (List.mem_of_find?_eq_some hfile) content hdecoded

end Tree

namespace Text

theorem solid_unifyBreaks (t : Text) : (unifyBreaks t).solid = t.solid := by
  have hreturn : isBlank '\r' = true := by decide +kernel
  have hbreak : isBlank '\n' = true := by decide +kernel
  fun_induction unifyBreaks t with
  | case1 => rfl
  | case2 cs ih => simpa [solid, hreturn, hbreak] using ih
  | case3 cs _ ih => simpa [solid, hreturn, hbreak] using ih
  | case4 c cs _ _ ih =>
      rw [solid] at ih
      rw [solid, solid, List.filter_cons, List.filter_cons, ih]
      rfl

end Text

namespace Options

variable [Machine] {options : Options} {language : Option Text} {path : Option String}
  {text : Text}

/-- A successful outcome has the text that was formatted. -/
theorem exists_of_succeeded {outcome : Outcome}
    (hformat : options.format language path text = .ok outcome)
    (hsucceeded : outcome.succeeded = true) :
    ∃ formatted, options.run language text = .ok formatted ∧
      outcome.text = options.ended formatted := by
  rcases format_cases hformat with ⟨_, _, _, rfl⟩ | ⟨formatted, finished, _, hrun, hfinish, rfl⟩
  · cases hsucceeded
  · exact ⟨formatted, hrun, ((finish_eq_ok_iff (holds_of_run hrun)).mp hfinish).2.symm⟩

/-- The path is only named in errors. -/
theorem format_of_succeeded {outcome : Outcome}
    (hformat : options.format language path text = .ok outcome)
    (hsucceeded : outcome.succeeded = true) (path' : Option String) :
    options.format language path' text = .ok outcome := by
  obtain ⟨formatted, hrun, _⟩ := exists_of_succeeded hformat hsucceeded
  rw [Options.format, hrun] at hformat ⊢
  exact hformat

/-- A run writes no carriage return of its own. -/
theorem return_not_mem_ended {formatted : Text} (hrun : options.run language text = .ok formatted)
    (htext : '\r' ∉ text) : '\r' ∉ options.ended formatted := by
  obtain ⟨unit, hunit, hformat⟩ := bind_eq_ok_iff.mp hrun
  have hformatted : '\r' ∉ formatted := by
    cases hfamily : Language.family? (language.getD []) with
    | none =>
        rw [formatWithin_of_none hfamily] at hformat
        cases hformat
    | some family =>
        intro hmem
        obtain ⟨hformat, _⟩ := (formatWithin_eq_ok_iff hfamily).mp hformat
        rcases mem_format hfamily hformat (by decide +kernel) hmem with h | h | h | h
        · exact htext h
        · rcases (unitOf_eq_ok hunit).1 with hchar | hchar <;> simp [hchar] at h
        · exact absurd h (by decide)
        · exact absurd h (by decide)
  rw [ended]
  split
  · simpa using hformatted
  · exact hformatted

end Options

namespace Command

theorem Progress.tree_foldl {α : Type} {act : Progress → α → Progress}
    (hact : ∀ progress a, (act progress a).tree = progress.tree) (l : List α)
    (progress : Progress) : (l.foldl act progress).tree = progress.tree := by
  induction l generalizing progress with
  | nil => rfl
  | cons a l ih => rw [List.foldl_cons, ih, hact]

theorem Progress.tree_log (progress : Progress) (world : World) (least : Severity)
    (notes : List Note) : (progress.log world least notes).tree = progress.tree := by
  refine tree_foldl ?_ _ progress
  exact fun _ _ => rfl

/-! ### What becomes of a file -/

/-- The text of a file as a run reads it, with one kind of line end. -/
def Item.text? (item : Item) (tree : Tree) : Option Text :=
  (tree.text? item.path).map Text.unifyBreaks

theorem Item.text?_congr {item other : Item} {tree : Tree}
    (hhome : tree.home other.path = tree.home item.path) : other.text? tree = item.text? tree := by
  rw [text?, text?, Tree.text?_congr hhome]

theorem Item.plain_of_text? {item : Item} {tree : Tree} (hplain : tree.Plain) {text : Text}
    (htext : item.text? tree = some text) : text.Plain := by
  obtain ⟨before, hbefore, rfl⟩ := Option.map_eq_some_iff.mp htext
  exact (hplain _ _ hbefore).congr (Text.solid_unifyBreaks before)

/-- What becomes of a file. -/
inductive Fate where
  | unread
  /-- Formatting fails without an explanation. -/
  | broken (failure : Failure)
  | failed
  | kept
  | changed (text : Text)

/-- What becomes of a file that can be read. -/
def Fate.ofResult : Except Failure Outcome → Fate
  | .error failure => .broken failure
  | .ok outcome =>
      if !outcome.succeeded then .failed
      else if !outcome.changed then .kept
      else .changed outcome.text

/-- Whether a file counts as an error. -/
def Fate.isWrong : Fate → Bool
  | .unread | .failed => true
  | .broken _ | .kept | .changed _ => false

def Fate.isChanged : Fate → Bool
  | .changed _ => true
  | _ => false

namespace Fate

theorem isWrong_ofResult_iff {result : Except Failure Outcome} :
    (ofResult result).isWrong = true ↔
      ∃ outcome, result = .ok outcome ∧ outcome.succeeded = false := by
  cases result with
  | error failure => simp [ofResult, isWrong]
  | ok outcome =>
      cases hsucceeded : outcome.succeeded <;> cases hchanged : outcome.changed <;>
        simp [ofResult, isWrong, hsucceeded, hchanged]

theorem ofResult_eq_changed_iff {result : Except Failure Outcome} {text : Text} :
    ofResult result = .changed text ↔
      ∃ outcome, result = .ok outcome ∧ outcome.succeeded = true ∧ outcome.changed = true ∧
        outcome.text = text := by
  cases result with
  | error failure => simp [ofResult]
  | ok outcome =>
      cases hsucceeded : outcome.succeeded <;> cases hchanged : outcome.changed <;>
        simp [ofResult, hsucceeded, hchanged]

theorem ofResult_eq_broken_iff {result : Except Failure Outcome} {failure : Failure} :
    ofResult result = .broken failure ↔ result = .error failure := by
  cases result with
  | error own => simp [ofResult]
  | ok outcome =>
      cases hsucceeded : outcome.succeeded <;> cases hchanged : outcome.changed <;>
        simp [ofResult, hsucceeded, hchanged]

end Fate

def Tally.add (tally : Tally) (fate : Fate) : Tally where
  changed := tally.changed + fate.isChanged.toNat
  failed := tally.failed + fate.isWrong.toNat

namespace FormatRun

/-- Whether a run writes what it changes. -/
def writes (run : FormatRun) : Bool :=
  !run.request.check && !run.request.diff

variable [Machine] {run : FormatRun} {tree tree' : Tree} {item other : Item} {text : Text}
  {outcome : Outcome}

def fate (run : FormatRun) (tree : Tree) (item : Item) : Fate :=
  match item.text? tree with
  | none => .unread
  | some text =>
      .ofResult (run.options.format (some item.language) (some item.shown.string) text)

/-- What ends a run at a file. -/
def stop? (run : FormatRun) (tree : Tree) (item : Item) : Option Trouble :=
  match run.fate tree item with
  | .broken failure => some (.ofFailure failure)
  | .changed _ =>
      if run.writes then (tree.refusal? item.path).map (refused · item.shown) else none
  | .unread | .failed | .kept => none

/-- The tree after one file. -/
def rewrite (run : FormatRun) (tree : Tree) (item : Item) : Tree :=
  match run.fate tree item with
  | .changed text => if run.writes then tree.written item.path (String.ofList text).toUTF8 else tree
  | _ => tree

/-- The outcome of a file that is formatted. -/
def Succeeds (run : FormatRun) (tree : Tree) (item : Item) (outcome : Outcome) : Prop :=
  ∃ text, item.text? tree = some text ∧
    run.options.format (some item.language) (some item.shown.string) text = .ok outcome ∧
    outcome.succeeded = true

/-- A file that cannot be read, or that there is an error to report of. -/
def Errs (run : FormatRun) (tree : Tree) (item : Item) : Prop :=
  ∀ text, item.text? tree = some text →
    ∃ outcome, run.options.format (some item.language) (some item.shown.string) text =
      .ok outcome ∧ outcome.succeeded = false

theorem succeeds_congr (hhome : tree.home other.path = tree.home item.path)
    (hlanguage : other.language = item.language) (hsucceeds : run.Succeeds tree item outcome) :
    run.Succeeds tree other outcome := by
  obtain ⟨text, htext, hformat, hsucceeded⟩ := hsucceeds
  refine ⟨text, (Item.text?_congr hhome).trans htext, ?_, hsucceeded⟩
  rw [hlanguage]
  exact Options.format_of_succeeded hformat hsucceeded _

theorem fate_congr (htext : item.text? tree = item.text? tree') :
    run.fate tree item = run.fate tree' item := by
  rw [fate, fate, htext]

theorem fate_eq_changed_iff :
    run.fate tree item = .changed text ↔
      ∃ outcome, run.Succeeds tree item outcome ∧ outcome.changed = true ∧ outcome.text = text := by
  rw [fate]
  simp only [Succeeds]
  cases item.text? tree with
  | none => simp
  | some text => simp [Fate.ofResult_eq_changed_iff, and_assoc]

theorem isChanged_fate_iff :
    (run.fate tree item).isChanged = true ↔
      ∃ outcome, run.Succeeds tree item outcome ∧ outcome.changed = true := by
  constructor
  · intro hfate
    cases hcase : run.fate tree item with
    | changed text =>
        obtain ⟨outcome, hsucceeds, hchanged, _⟩ := fate_eq_changed_iff.mp hcase
        exact ⟨outcome, hsucceeds, hchanged⟩
    | unread | broken _ | failed | kept =>
        rw [hcase] at hfate
        cases hfate
  · rintro ⟨outcome, hsucceeds, hchanged⟩
    rw [fate_eq_changed_iff.mpr ⟨outcome, hsucceeds, hchanged, rfl⟩, Fate.isChanged]

theorem isWrong_fate_iff : (run.fate tree item).isWrong = true ↔ run.Errs tree item := by
  rw [fate, Errs]
  cases item.text? tree with
  | none => simp [Fate.isWrong]
  | some text => simp [Fate.isWrong_ofResult_iff]

/-- Whether a file is in error depends on whether it can be read, and not on its text. -/
theorem isWrong_fate_congr (htext : (item.text? tree).isSome = (item.text? tree').isSome) :
    (run.fate tree item).isWrong = (run.fate tree' item).isWrong := by
  rw [Bool.eq_iff_iff, isWrong_fate_iff, isWrong_fate_iff, Errs, Errs]
  simp only [← Options.rejects_iff]
  cases hthere : item.text? tree <;> cases hthere' : item.text? tree' <;>
    simp [hthere, hthere'] at htext ⊢

/-- What a run does to a file: it leaves the tree rewritten, and counts what has become of the file
unless it stops there. -/
theorem file_spec (run : FormatRun) (item : Item) (progress : Progress) (tally : Tally) :
    ∃ shown : Progress, shown.tree = run.rewrite progress.tree item ∧
      run.file item progress tally =
        match run.stop? progress.tree item with
        | some trouble => .error (trouble, shown)
        | none => .ok (shown, tally.add (run.fate progress.tree item)) := by
  rw [file, rewrite, stop?, fate, Item.text?, Tree.text?]
  cases (progress.tree.read? item.path).bind String.fromUTF8? with
  | none => exact ⟨progress.complain _, rfl, rfl⟩
  | some content =>
      dsimp only [Option.map_some]
      cases run.options.format (some item.language) (some item.shown.string)
          (Text.unifyBreaks content.toList) with
      | error failure => exact ⟨_, Progress.tree_log .., rfl⟩
      | ok outcome =>
          dsimp only [Fate.ofResult]
          generalize hreported : List.foldl _ _ outcome.warnings = reported
          have htree : reported.tree = progress.tree := by
            rw [← hreported]
            refine (Progress.tree_foldl ?_ _ _).trans ((Progress.tree_foldl ?_ _ _).trans ?_)
            · exact fun _ _ => rfl
            · exact fun _ _ => rfl
            · exact Progress.tree_log ..
          cases outcome.succeeded with
          | false => exact ⟨reported, htree, rfl⟩
          | true =>
              cases outcome.changed with
              | false => exact ⟨reported, htree, rfl⟩
              | true =>
                  rw [← htree, writes]
                  cases run.request.check with
                  | true => cases run.request.diff <;> exact ⟨_, by rfl, rfl⟩
                  | false =>
                      cases run.request.diff with
                      | true => exact ⟨_, by rfl, rfl⟩
                      | false =>
                          simp only [Bool.not_true, Bool.not_false, Bool.false_eq_true, if_false,
                            if_true, Bool.and_self, Tree.written, Tree.write]
                          cases reported.tree.refusal? item.path <;> exact ⟨_, by rfl, rfl⟩

/-! ### The tree after one file -/

theorem rewrite_of_not_writes (hwrites : run.writes = false) (tree : Tree) (item : Item) :
    run.rewrite tree item = tree := by
  rw [rewrite, hwrites]
  split <;> rfl

theorem rewrite_of_not_changed (hfate : ∀ text, run.fate tree item ≠ .changed text) :
    run.rewrite tree item = tree := by
  rw [rewrite]
  split
  next text hchanged => exact absurd hchanged (hfate text)
  next => rfl

theorem rewrite_of_changed (hwrites : run.writes = true)
    (hfate : run.fate tree item = .changed text) :
    run.rewrite tree item = tree.written item.path (String.ofList text).toUTF8 := by
  rw [rewrite, hfate, hwrites]
  rfl

/-- A file is written only if it is changed. -/
theorem rewrite_cases (run : FormatRun) (tree : Tree) (item : Item) :
    run.rewrite tree item = tree ∨ run.writes = true ∧ ∃ text,
      run.fate tree item = .changed text ∧
        run.rewrite tree item = tree.written item.path (String.ofList text).toUTF8 := by
  by_cases hfate : ∃ text, run.fate tree item = .changed text
  · obtain ⟨text, hfate⟩ := hfate
    cases hwrites : run.writes with
    | false => exact .inl (rewrite_of_not_writes hwrites tree item)
    | true => exact .inr ⟨rfl, text, hfate, rewrite_of_changed hwrites hfate⟩
  · exact .inl (rewrite_of_not_changed (not_exists.mp hfate))

theorem sameNames_rewrite (run : FormatRun) (tree : Tree) (item : Item) :
    tree.SameNames (run.rewrite tree item) := by
  rcases run.rewrite_cases tree item with h | ⟨_, text, _, h⟩ <;> rw [h]
  · exact .refl tree
  · exact Tree.sameNames_written tree item.path _

theorem bytes?_rewrite_of_ne {path : Path} (hne : tree.home path ≠ tree.home item.path) :
    (run.rewrite tree item).bytes? path = tree.bytes? path := by
  rcases run.rewrite_cases tree item with h | ⟨_, text, _, h⟩ <;> rw [h]
  exact Tree.bytes?_written_of_ne hne _

/-- A file that cannot be written keeps its bytes, or has those that an attempt to write it leaves. -/
theorem bytes?_rewrite_of_refusal {refusal : Refusal}
    (hrefusal : tree.refusal? item.path = some refusal) (other : Item) :
    (run.rewrite tree other).bytes? item.path = tree.bytes? item.path ∨
      ∃ left, refusal.left = some left ∧
        (run.rewrite tree other).bytes? item.path = some left := by
  by_cases hhome : tree.home item.path = tree.home other.path
  · rcases run.rewrite_cases tree other with h | ⟨_, text, hfate, h⟩
    · exact .inl (by rw [h])
    · obtain ⟨_, ⟨_, htext, _⟩, _⟩ := fate_eq_changed_iff.mp hfate
      obtain ⟨before, hbefore, _⟩ := Option.map_eq_some_iff.mp htext
      obtain ⟨bytes, hfile, _⟩ := Tree.exists_bytes?_of_text? hbefore
      rw [Tree.refusal?_congr hhome] at hrefusal
      rw [h, Tree.bytes?_congr ((Tree.sameNames_written tree other.path _).home_eq hhome),
        Tree.bytes?_congr hhome]
      rcases Tree.written_cases tree other.path (String.ofList text).toUTF8 with
        ⟨hnone, _⟩ | ⟨own, hown, ⟨_, hkept⟩ | ⟨left, hleft, hput⟩⟩
      · rw [hrefusal] at hnone
        cases hnone
      · exact .inl (by rw [hkept])
      · obtain rfl := Option.some.inj (hrefusal.symm.trans hown)
        refine .inr ⟨left, hleft, ?_⟩
        rw [hput, Tree.bytes?_put (by rw [hfile]; exact Option.some_ne_none bytes)]
  · exact .inl (bytes?_rewrite_of_ne hhome)

theorem text?_rewrite_of_ne (hne : tree.home other.path ≠ tree.home item.path) :
    other.text? (run.rewrite tree item) = other.text? tree := by
  rw [Item.text?, Item.text?]
  rcases run.rewrite_cases tree item with h | ⟨_, text, _, h⟩ <;> rw [h]
  rw [Tree.text?_written_of_ne hne]

/-- What formatting makes of a text; without an answer it stays. -/
def formatted (run : FormatRun) (language text : Text) : Text :=
  match run.options.format (some language) none text with
  | .error _ => text
  | .ok outcome => outcome.text

/-- The path that is named in errors does not matter. -/
theorem formatted_eq (run : FormatRun) (language : Text) (path : Option String) (text : Text) :
    run.formatted language text =
      match run.options.format (some language) path text with
      | .error _ => text
      | .ok outcome => outcome.text := by
  rw [formatted, Options.format, Options.format]
  cases run.options.run (some language) text with
  | error failure => cases failure <;> rfl
  | ok formatted => rfl

theorem formatted_of_format {language : Text} {path : Option String}
    (hformat : run.options.format (some language) path text = .ok outcome) :
    run.formatted language text = outcome.text := by
  rw [formatted_eq run language path, hformat]

/-- Only a file that is changed has not been formatted already. -/
theorem formatted_of_not_changed (hfate : ∀ text, run.fate tree item ≠ .changed text)
    (htext : item.text? tree = some text) : run.formatted item.language text = text := by
  rw [formatted_eq run item.language (some item.shown.string)]
  cases hformat : run.options.format (some item.language) (some item.shown.string) text with
  | error failure => rfl
  | ok outcome =>
      have hfaithful := Options.faithful_of_format hformat
      dsimp only
      by_cases herrors : outcome.errors = []
      · by_contra hne
        have hsucceeded : outcome.succeeded = true := by rw [Outcome.succeeded, herrors]; rfl
        have hsucceeds : run.Succeeds tree item outcome := ⟨text, htext, hformat, hsucceeded⟩
        exact hfate outcome.text (fate_eq_changed_iff.mpr
          ⟨outcome, hsucceeds, (hfaithful.changed_iff herrors).mpr hne, rfl⟩)
      · exact (hfaithful.failed herrors).1

/-- What a run has formatted it reads again as it has written it. -/
theorem unifyBreaks_of_succeeds (hsucceeds : run.Succeeds tree item outcome) :
    Text.unifyBreaks outcome.text = outcome.text := by
  obtain ⟨text, htext, hformat, hsucceeded⟩ := hsucceeds
  obtain ⟨before, _, rfl⟩ := Option.map_eq_some_iff.mp htext
  obtain ⟨formatted, hrun, hresult⟩ := Options.exists_of_succeeded hformat hsucceeded
  rw [hresult]
  exact Text.unifyBreaks_eq_self
    (Options.return_not_mem_ended hrun (Text.return_not_mem_unifyBreaks before))

/-- A run that writes leaves the formatted text in a file that can be written. -/
theorem text?_rewrite_self (hwrites : run.writes = true) (hrefusal : tree.refusal? item.path = none) :
    item.text? (run.rewrite tree item) = (item.text? tree).map (run.formatted item.language) := by
  by_cases hfate : ∃ text, run.fate tree item = .changed text
  · obtain ⟨after, hfate⟩ := hfate
    obtain ⟨outcome, hsucceeds, _, rfl⟩ := fate_eq_changed_iff.mp hfate
    have hunified := unifyBreaks_of_succeeds hsucceeds
    obtain ⟨text, htext, hformat, _⟩ := hsucceeds
    obtain ⟨before, hbefore, _⟩ := Option.map_eq_some_iff.mp htext
    rw [htext, Option.map_some, formatted_of_format hformat, rewrite_of_changed hwrites hfate,
      Item.text?, Tree.text?_written hbefore hrefusal, Option.map_some, hunified]
  · rw [not_exists] at hfate
    rw [rewrite_of_not_changed hfate]
    cases htext : item.text? tree with
    | none => rfl
    | some text => rw [Option.map_some, formatted_of_not_changed hfate htext]

/-! ### Stops -/

theorem stop?_congr (htext : item.text? tree = item.text? tree')
    (hrefusal : tree.refusal? item.path = tree'.refusal? item.path) :
    run.stop? tree item = run.stop? tree' item := by
  rw [stop?, stop?, fate_congr htext, hrefusal]

/-- A file that a run writes and goes on can be written. -/
theorem refusal?_of_stop? (hstop : run.stop? tree item = none) (hwrites : run.writes = true)
    (hfate : run.fate tree item = .changed text) : tree.refusal? item.path = none := by
  rw [stop?, hfate, hwrites] at hstop
  exact Option.map_eq_none_iff.mp hstop

/-- A file in error stays as it is, and the run goes on. -/
theorem stop?_of_errs (herrs : run.Errs tree item) :
    run.rewrite tree item = tree ∧ run.stop? tree item = none := by
  rw [← isWrong_fate_iff] at herrs
  rw [rewrite, stop?]
  cases hfate : run.fate tree item with
  | unread | failed => exact ⟨rfl, rfl⟩
  | broken _ | kept | changed _ =>
      rw [hfate] at herrs
      cases herrs

/-- If the run goes on, files that can be read stay such files. -/
theorem isSome_text?_rewrite (hstop : run.stop? tree item = none) (other : Item) :
    (other.text? (run.rewrite tree item)).isSome = (other.text? tree).isSome := by
  rcases run.rewrite_cases tree item with h | ⟨hwrites, text, hfate, h⟩
  · rw [h]
  · by_cases hhome : tree.home other.path = tree.home item.path
    · rw [Item.text?_congr ((run.sameNames_rewrite tree item).home_eq hhome), Item.text?_congr hhome,
        text?_rewrite_self hwrites (refusal?_of_stop? hstop hwrites hfate), Option.isSome_map]
    · rw [text?_rewrite_of_ne hhome]

theorem isWrong_fate_rewrite (hstop : run.stop? tree item = none) (other : Item) :
    (run.fate (run.rewrite tree item) other).isWrong = (run.fate tree other).isWrong :=
  isWrong_fate_congr (isSome_text?_rewrite hstop other)

/-- One file does not tell whether a run stops at another. -/
theorem stop?_rewrite_of_ne (hne : tree.home other.path ≠ tree.home item.path) :
    run.stop? (run.rewrite tree item) other = run.stop? tree other :=
  stop?_congr (text?_rewrite_of_ne hne) ((run.sameNames_rewrite tree item).refusal? other.path)

/-! ### Plain trees -/

theorem plain_of_succeeds (hplain : tree.Plain) (hsucceeds : run.Succeeds tree item outcome) :
    outcome.text.Plain := by
  obtain ⟨text, htext, hformat, hsucceeded⟩ := hsucceeds
  obtain ⟨formatted, hrun, hresult⟩ := Options.exists_of_succeeded hformat hsucceeded
  rw [hresult]
  exact Options.plain_ended (Options.plain_of_run (Item.plain_of_text? hplain htext) hrun)

/-- If the run goes on, a plain tree stays plain. -/
theorem plain_rewrite (hplain : tree.Plain) (hstop : run.stop? tree item = none) :
    (run.rewrite tree item).Plain := by
  rcases run.rewrite_cases tree item with h | ⟨hwrites, after, hfate, h⟩
  · rw [h]
    exact hplain
  · have hrefusal := refusal?_of_stop? hstop hwrites hfate
    obtain ⟨outcome, hsucceeds, _, rfl⟩ := fate_eq_changed_iff.mp hfate
    have hafter := plain_of_succeeds hplain hsucceeds
    obtain ⟨text, htext, _⟩ := hsucceeds
    obtain ⟨before, hbefore, _⟩ := Option.map_eq_some_iff.mp htext
    have hnames := Tree.sameNames_written tree item.path (String.ofList outcome.text).toUTF8
    rw [h]
    intro path text' htext'
    by_cases hhome : tree.home path = tree.home item.path
    · rw [Tree.text?_congr (hnames.home_eq hhome), Tree.text?_written hbefore hrefusal] at htext'
      exact Option.some.inj htext' ▸ hafter
    · rw [Tree.text?_written_of_ne hhome] at htext'
      exact hplain path text' htext'

/-- A run over a plain tree stops for want of room, or at a file that cannot be written. -/
theorem reason_of_stop? (hplain : tree.Plain) {trouble : Trouble}
    (hstop : run.stop? tree item = some trouble) :
    (∃ failure : Failure, failure.IsLimit ∧ trouble = .ofFailure failure) ∨
      ∃ refusal, tree.refusal? item.path = some refusal ∧ trouble = refused refusal item.shown := by
  rw [stop?] at hstop
  split at hstop
  next failure hfate =>
      cases hstop
      rw [fate] at hfate
      split at hfate
      next => cases hfate
      next text htext =>
          exact .inl ⟨failure, Options.isLimit_of_format (Item.plain_of_text? hplain htext)
            (Fate.ofResult_eq_broken_iff.mp hfate), rfl⟩
  next =>
      split at hstop
      next =>
          obtain ⟨refusal, hrefusal, rfl⟩ := Option.map_eq_some_iff.mp hstop
          exact .inr ⟨refusal, hrefusal, rfl⟩
      next => cases hstop
  next => cases hstop
  next => cases hstop
  next => cases hstop

end FormatRun

end Command

end SourceLayout
