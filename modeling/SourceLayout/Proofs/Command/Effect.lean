import SourceLayout.Proofs.Command.Collected
import SourceLayout.Proofs.Command.Files

/-!
# What a formatting run changes and reports

A run that writes changes no file but those that it collected, could read and has formatted, and any
other run changes none. If it gets through with its files, its exit status tells whether an argument
was refused, whether a file could not be read or formatted, and, of a run that checks, whether a
file would change. All of this can be seen from the tree before the run, although every file is read
when those before it have been written.

Two things go wrong: a file that the machine has no room for, and one that cannot be written. The
run ends there, and the files that are left have no turn.
-/

namespace SourceLayout.Command

/-- A command line that asks for formatting, in a workspace whose settings can be loaded, with a
known language if it forces one. -/
structure Accepted [Machine] (world : World) (arguments : List Text) where
  invocation : Invocation
  request : FormatRequest
  settings : Settings
  parsed : Invocation.ofArguments arguments = .ok invocation
  asked : invocation.request = some (.format request)
  configured : settingsOf world invocation = .ok settings
  supported : request.forced?.filter (fun language => !Language.isSupported language) = none

theorem Progress.tree_complain (progress : Progress) (problems : List String) :
    (problems.foldl complain progress).tree = progress.tree := by
  refine tree_foldl ?_ problems progress
  exact fun _ _ => rfl

section

variable [Machine] {world : World} {arguments : List Text}

namespace Accepted

/-- What all files of the run share. -/
def formatRun (accepted : Accepted world arguments) : FormatRun where
  world := world
  least := threshold world accepted.invocation
  options := accepted.settings.options accepted.request.tabSize
    (if accepted.request.useTabs then some true else none)
  request := accepted.request

def collected (accepted : Accepted world arguments) : Except Trouble Collected :=
  collect world accepted.settings accepted.request

/-- However the arguments lead to a file, they give it one language. -/
theorem language_eq (accepted : Accepted world arguments) {found : Collected}
    (hcollect : accepted.collected = .ok found) {item other : Item} (hitem : item ∈ found.items)
    (hother : other ∈ found.items) (hparts : item.path.parts = other.path.parts) :
    item.language = other.language :=
  language_eq_of_collect (valid_settingsOf accepted.configured) hcollect hitem hother hparts

theorem run_eq (accepted : Accepted world arguments) :
    run world arguments =
      if accepted.request.stdin then
        accepted.formatRun.standardInput accepted.invocation.verbose { tree := world.tree }
      else
        accepted.formatRun.paths accepted.settings accepted.invocation.verbose
          { tree := world.tree } := by
  obtain ⟨invocation, request, settings, hparsed, hasked, hconfigured, hsupported⟩ := accepted
  rw [run, hparsed]
  dsimp only
  rw [hasked]
  dsimp only
  rw [hconfigured]
  dsimp only
  rw [runFormat, hsupported]
  rfl

end Accepted

theorem FormatRun.tree_standardInput (run : FormatRun) (verbose : Bool) (progress : Progress) :
    (run.standardInput verbose progress).progress.tree = progress.tree := by
  rw [standardInput]
  split
  next => exact Progress.tree_fail ..
  next language _ =>
      dsimp only
      split
      next => rw [Progress.tree_fail, Progress.tree_log]
      next outcome _ =>
          split
          next => rw [Progress.tree_fail, Progress.tree_log]
          next =>
              rw [← Progress.tree_log progress run.world run.least]
              repeat' split
              all_goals rfl

/-- Whatever is not accepted changes nothing, and fails if it asks for formatting. -/
theorem run_of_not_accepted (hnot : IsEmpty (Accepted world arguments)) :
    (run world arguments).progress.tree = world.tree ∧
      ∀ invocation, Invocation.ofArguments arguments = .ok invocation →
        ∀ request, invocation.request = some (.format request) →
          (run world arguments).ending.status = 1 := by
  rw [run]
  cases hparsed : Invocation.ofArguments arguments with
  | error stop => exact ⟨by cases stop <;> rfl, by simp⟩
  | ok invocation =>
      simp only [Except.ok.injEq, forall_eq']
      cases hasked : invocation.request with
      | none => exact ⟨rfl, by simp⟩
      | some asked =>
          dsimp only
          cases hconfigured : settingsOf world invocation with
          | error error =>
              cases error with
              | command error => exact ⟨Progress.tree_fail .., fun _ _ => Progress.status_fail ..⟩
              | unloadable error => exact ⟨rfl, fun _ _ => rfl⟩
          | ok settings =>
              cases asked with
              | format request =>
                  dsimp only [runFormat]
                  split
                  next => exact ⟨Progress.tree_fail .., fun _ _ => Progress.status_fail ..⟩
                  next hsupported =>
                      exact hnot.elim ⟨invocation, request, settings, hparsed, hasked, hconfigured,
                        hsupported⟩
              | languages =>
                  refine ⟨Progress.tree_foldl ?_ _ _, by simp⟩
                  exact fun _ _ => rfl
              | server =>
                  refine ⟨?_, by simp⟩
                  dsimp only [runServer]
                  split
                  next => rfl
                  next => rfl
                  next => exact Progress.tree_fail ..

/-! ### Runs over paths -/

namespace FormatRun

variable {run : FormatRun} {settings : Settings} {verbose : Bool} {progress : Progress}
  {found : Collected}

/-- The tree is left as those files leave it that have their turn. -/
theorem tree_paths (run : FormatRun) (settings : Settings) (verbose : Bool) (progress : Progress)
    (hcollect : collect run.world settings run.request = .ok found) :
    (run.paths settings verbose progress).progress.tree =
      (run.reached progress.tree found.items).foldl run.rewrite progress.tree := by
  obtain ⟨items, problems⟩ := found
  have htree := progress.tree_complain problems
  rw [paths, hcollect]
  dsimp only
  split
  next hempty =>
      obtain rfl := List.isEmpty_iff.mp hempty
      exact htree
  next =>
      obtain ⟨shown, hshown, hfiles⟩ := run.files_spec items
        (problems.foldl Progress.complain progress) { failed := problems.length }
      rw [htree] at hshown hfiles
      rw [← hshown]
      split at hfiles
      next =>
          rw [hfiles]
          exact Progress.tree_fail ..
      next =>
          obtain ⟨counted, hfiles, _⟩ := hfiles
          rw [hfiles]
          exact tree_finish ..

/-- What a run over paths writes it has collected, and would change as it is. -/
theorem exists_of_paths_ne {path : Path}
    (hbytes : (run.paths settings verbose progress).progress.tree.bytes? path ≠
      progress.tree.bytes? path) :
    run.writes = true ∧ ∃ found, collect run.world settings run.request = .ok found ∧
      ∃ item ∈ found.items, progress.tree.home item.path = progress.tree.home path ∧
        ∃ outcome, run.Succeeds progress.tree item outcome ∧ outcome.changed = true := by
  cases hcollect : collect run.world settings run.request with
  | error trouble =>
      rw [paths, hcollect] at hbytes
      exact absurd (congrArg (Tree.bytes? · path) (Progress.tree_fail ..)) hbytes
  | ok found =>
      rw [tree_paths _ _ _ _ hcollect] at hbytes
      obtain ⟨hwrites, item, hitem, hhome, text, hfate⟩ := exists_changed_of_ne hbytes
      obtain ⟨outcome, hsucceeds, hchanged, _⟩ := fate_eq_changed_iff.mp hfate
      exact ⟨hwrites, found, rfl, item, (run.reached_prefix _ _).subset hitem, hhome, outcome,
        hsucceeds, hchanged⟩

/-- Whether something is wrong: an argument is refused, a file cannot be read or formatted, or a run
that checks finds a file that would change. -/
def Fails (run : FormatRun) (settings : Settings) (tree : Tree) : Prop :=
  (∃ argument ∈ run.request.paths, Refused run.world settings run.request argument) ∨
    ∃ found, collect run.world settings run.request = .ok found ∧ ∃ item ∈ found.items,
      run.Errs tree item ∨
        run.request.check = true ∧ ∃ outcome, run.Succeeds tree item outcome ∧
          outcome.changed = true

theorem fails_iff (hcollect : collect run.world settings run.request = .ok found) (tree : Tree) :
    run.Fails settings tree ↔ found.problems ≠ [] ∨
      (∃ item ∈ found.items, (run.fate tree item).isWrong = true) ∨
        run.request.check = true ∧ ∃ item ∈ found.items, (run.fate tree item).isChanged = true := by
  have hproblems : (∃ argument ∈ run.request.paths,
      Refused run.world settings run.request argument) ↔ found.problems ≠ [] := by
    rw [Ne, problems_eq_nil_iff hcollect]
    simp
  have hfound : ∀ other, collect run.world settings run.request = .ok other ↔ found = other := by
    simp [hcollect]
  simp only [Fails, hproblems, isWrong_fate_iff, isChanged_fate_iff, hfound, exists_eq_left',
    and_or_left, exists_or]
  simp only [and_left_comm (b := run.request.check = true), exists_and_left]

/-- The exit status of a run without trouble tells whether something is wrong. -/
theorem status_paths (run : FormatRun) (settings : Settings) (verbose : Bool) (progress : Progress)
    (hcollect : collect run.world settings run.request = .ok found)
    (hthrough : run.trouble? progress.tree found.items = none) :
    (run.Fails settings progress.tree →
        (run.paths settings verbose progress).ending.status = 1) ∧
      (¬run.Fails settings progress.tree →
        (run.paths settings verbose progress).ending.status = 0) := by
  rw [fails_iff hcollect, paths, hcollect]
  obtain ⟨items, problems⟩ := found
  dsimp only at hthrough ⊢
  split
  next hempty =>
      obtain rfl := List.isEmpty_iff.mp hempty
      cases problems <;> simp [Ending.status]
  next hitems =>
      have htree := progress.tree_complain problems
      obtain ⟨shown, _, hfiles⟩ := run.files_spec items
        (problems.foldl Progress.complain progress) { failed := problems.length }
      rw [htree, hthrough] at hfiles
      obtain ⟨counted, hfiles, hfailed, hchanged⟩ := hfiles
      rw [hfiles]
      dsimp only
      rw [status_finish]
      have hbad : 0 < counted.failed ↔ problems ≠ [] ∨
          ∃ item ∈ items, (run.fate progress.tree item).isWrong = true := by
        rw [hfailed, Nat.add_pos_iff_pos_or_pos, List.length_pos_iff, List.countP_pos_iff]
      have hdiffers : run.request.check = true → (0 < counted.changed ↔
          ∃ item ∈ items, (run.fate progress.tree item).isChanged = true) := by
        intro hcheck
        rw [hchanged (by rw [writes, hcheck]; rfl), Nat.zero_add, List.countP_pos_iff]
      rw [← or_assoc, ← hbad, ← and_congr_right hdiffers, or_comm]
      exact ⟨fun hwrong => if_pos hwrong, fun hright => if_neg hright⟩

/-- A run with trouble shows what the files that have their turn show, and then the trouble. -/
theorem paths_of_trouble (run : FormatRun) (settings : Settings) (verbose : Bool)
    (progress : Progress) (hcollect : collect run.world settings run.request = .ok found)
    {trouble : Trouble} (htrouble : run.trouble? progress.tree found.items = some trouble) :
    ∃ shown : Progress,
      run.files (run.reached progress.tree found.items)
        (found.problems.foldl Progress.complain progress) { failed := found.problems.length } =
          .error (trouble, shown) ∧
      run.paths settings verbose progress = shown.fail run.world verbose trouble := by
  obtain ⟨items, problems⟩ := found
  have htree := progress.tree_complain problems
  obtain ⟨shown, _, hfiles⟩ := run.files_spec items
    (problems.foldl Progress.complain progress) { failed := problems.length }
  rw [htree, htrouble] at hfiles
  refine ⟨shown, ?_, ?_⟩
  · rw [← htree, files_reached]
    exact hfiles
  · have hitems : ¬items.isEmpty = true := by
      rw [List.isEmpty_iff]
      rintro rfl
      cases htrouble
    rw [paths, hcollect]
    dsimp only
    rw [if_neg hitems, hfiles]

end FormatRun

/-! ### Every command line -/

namespace Accepted

theorem run_eq_paths (accepted : Accepted world arguments)
    (hpaths : accepted.request.stdin = false) :
    run world arguments = accepted.formatRun.paths accepted.settings accepted.invocation.verbose
      { tree := world.tree } := by
  rw [accepted.run_eq, hpaths]
  rfl

/-- A run over paths leaves the tree as those files leave it that have their turn. -/
theorem tree_run (accepted : Accepted world arguments) (hpaths : accepted.request.stdin = false)
    {found : Collected} (hcollect : accepted.collected = .ok found) :
    (run world arguments).progress.tree =
      (accepted.formatRun.reached world.tree found.items).foldl accepted.formatRun.rewrite
        world.tree := by
  rw [accepted.run_eq_paths hpaths]
  exact accepted.formatRun.tree_paths _ _ _ hcollect

end Accepted

/-- How a run over paths ends, with all that was collected for it. -/
structure Accepted.Ends (accepted : Accepted world arguments) (found : Collected) : Prop where
  /-- Without trouble every file has its turn, and the status tells whether something is wrong. -/
  through : accepted.formatRun.trouble? world.tree found.items = none →
    (run world arguments).progress.tree =
        found.items.foldl accepted.formatRun.rewrite world.tree ∧
      (accepted.formatRun.Fails accepted.settings world.tree →
        (run world arguments).ending.status = 1) ∧
      (¬accepted.formatRun.Fails accepted.settings world.tree →
        (run world arguments).ending.status = 0)
  /-- Else the run ends at some file with the status 1, and the files after it have no turn. -/
  stopped : ∀ trouble, accepted.formatRun.trouble? world.tree found.items = some trouble →
    ∃ before item after shown, found.items = before ++ item :: after ∧
      accepted.formatRun.trouble? world.tree before = none ∧
      accepted.formatRun.stop? (before.foldl accepted.formatRun.rewrite world.tree) item =
        some trouble ∧
      accepted.formatRun.files (before ++ [item])
        (found.problems.foldl Progress.complain { tree := world.tree })
        { failed := found.problems.length } = .error (trouble, shown) ∧
      run world arguments = shown.fail world accepted.invocation.verbose trouble ∧
      (run world arguments).progress.tree =
        (before ++ [item]).foldl accepted.formatRun.rewrite world.tree ∧
      (run world arguments).ending.status = 1
  /-- A file in error is left as it is, and does not end the run. -/
  errs : ∀ tree item, accepted.formatRun.Errs tree item →
    accepted.formatRun.rewrite tree item = tree ∧ accepted.formatRun.stop? tree item = none
  /-- If no file comes twice, the tree before the run tells where it ends. -/
  seen : (found.items.Pairwise fun item other =>
      world.tree.home item.path ≠ world.tree.home other.path) →
    accepted.formatRun.trouble? world.tree found.items =
      found.items.findSome? (accepted.formatRun.stop? world.tree)
  /-- In a plain tree there is no other trouble than want of room and files that cannot be
  written. -/
  reason : world.tree.Plain → ∀ trouble,
    accepted.formatRun.trouble? world.tree found.items = some trouble →
    (∃ failure : Failure, failure.IsLimit ∧ trouble = .ofFailure failure) ∨
      ∃ item ∈ found.items, ∃ refusal, world.tree.refusal? item.path = some refusal ∧
        trouble = refused refusal item.shown

theorem Accepted.ends (accepted : Accepted world arguments)
    (hpaths : accepted.request.stdin = false) {found : Collected}
    (hcollect : accepted.collected = .ok found) : accepted.Ends found := by
  have hrun := accepted.run_eq_paths hpaths
  have htree := accepted.tree_run hpaths hcollect
  refine
    { through := fun hthrough => ⟨?_, ?_⟩
      stopped := fun trouble htrouble => ?_
      errs := fun tree item => FormatRun.stop?_of_errs
      seen := FormatRun.trouble?_of_pairwise
      reason := fun hplain trouble => FormatRun.reason_of_trouble? hplain }
  · rw [htree, FormatRun.reached_of_trouble? hthrough]
  · rw [hrun]
    exact accepted.formatRun.status_paths accepted.settings _ { tree := world.tree } hcollect
      hthrough
  · obtain ⟨before, item, after, hitems, hbefore, hstop, hreached⟩ :=
      FormatRun.exists_stop htrouble
    obtain ⟨shown, hfiles, hshown⟩ := accepted.formatRun.paths_of_trouble accepted.settings
      accepted.invocation.verbose { tree := world.tree } hcollect htrouble
    dsimp only at hfiles
    rw [hreached] at hfiles htree
    refine ⟨before, item, after, shown, hitems, hbefore, hstop, hfiles, hrun.trans hshown, htree, ?_⟩
    rw [hrun, hshown]
    exact Progress.status_fail ..

/-- **A run touches only what it should, and its exit status is true**, as far as it gets. A command
line that is not accepted changes nothing, and its status is 1 if it asks for formatting. Only a run
that writes changes bytes, and only those of a file that it collected, could read, and would change
as it was. Over paths, a run without trouble gives every file that was collected its turn, whatever
became of those before it, and its status is 1 if something is wrong and else 0. -/
theorem format_effect (world : World) (arguments : List Text) :
    (IsEmpty (Accepted world arguments) → (run world arguments).progress.tree = world.tree ∧
      ∀ invocation, Invocation.ofArguments arguments = .ok invocation →
        ∀ request, invocation.request = some (.format request) →
          (run world arguments).ending.status = 1) ∧
    ∀ accepted : Accepted world arguments,
      (∀ path, (run world arguments).progress.tree.bytes? path ≠ world.tree.bytes? path →
        accepted.request.check = false ∧ accepted.request.diff = false ∧
        accepted.request.stdin = false ∧
        ∃ found, accepted.collected = .ok found ∧
          ∃ item ∈ found.items, world.tree.home item.path = world.tree.home path ∧
            ∀ other ∈ found.items, world.tree.home other.path = world.tree.home path →
              other.language = item.language →
              ∃ outcome, accepted.formatRun.Succeeds world.tree other outcome ∧
                outcome.changed = true) ∧
      (accepted.request.stdin = false →
        (∀ trouble, accepted.collected = .error trouble →
          accepted.formatRun.Fails accepted.settings world.tree ∧
            (run world arguments).ending.status = 1) ∧
        ∀ found, accepted.collected = .ok found → accepted.Ends found) := by
  refine ⟨run_of_not_accepted, fun accepted => ⟨fun path hbytes => ?_, fun hpaths =>
    ⟨fun trouble hcollect => ⟨.inl (exists_refused_of_error hcollect), ?_⟩,
      fun found => accepted.ends hpaths⟩⟩⟩
  · rw [accepted.run_eq] at hbytes
    split at hbytes
    next =>
        rw [FormatRun.tree_standardInput] at hbytes
        exact absurd rfl hbytes
    next hpaths =>
        obtain ⟨hwrites, found, hcollect, item, hitem, hhome, outcome, hsucceeds, hchanged⟩ :=
          FormatRun.exists_of_paths_ne hbytes
        rw [FormatRun.writes, Bool.and_eq_true, Bool.not_eq_true', Bool.not_eq_true'] at hwrites
        refine ⟨hwrites.1, hwrites.2, by simpa using hpaths, found, hcollect, item, hitem, hhome,
          fun other _ hsame hlanguage => ⟨outcome, ?_, hchanged⟩⟩
        exact FormatRun.succeeds_congr (hsame.trans hhome.symm) hlanguage hsucceeds
  · rw [accepted.run_eq_paths hpaths, FormatRun.paths]
    have herror : collect accepted.formatRun.world accepted.settings accepted.formatRun.request =
        .error trouble := hcollect
    rw [herror]
    exact Progress.status_fail ..

end

/-- A file that would be changed, one that is no text, and one that would be changed but cannot be
written. -/
def World.sample : World where
  tree :=
    { files := [(.ofString "/w/a.js", "    a".toUTF8), (.ofString "/w/b.js", ⟨#[0xff]⟩),
        (.ofString "/w/r.js", "    a".toUTF8)]
      directories := [.ofString "/w"]
      refusals := [(.ofString "/w/r.js",
        { name := "PermissionError", reason := "[Errno 13] Permission denied" })] }
  current := .ofString "/w"

theorem World.plain_sample : World.sample.tree.Plain := by
  have hindented : ∀ text, String.fromUTF8? "    a".toUTF8 = some text →
      Text.Plain text.toList := by
    intro text htext
    rw [Tree.fromUTF8?_toUTF8] at htext
    obtain rfl := Option.some.inj htext
    exact Text.plain_of_length (by decide +kernel)
      (Nat.le_trans (by decide +kernel) Literal.addressLimit_le)
  refine Tree.plain_of_files (List.forall_mem_cons.mpr ⟨hindented, List.forall_mem_cons.mpr
    ⟨fun text htext => ?_, List.forall_mem_singleton.mpr hindented⟩⟩)
  have hnone : String.fromUTF8? ⟨#[0xff]⟩ = none := by decide +kernel
  rw [hnone] at htext
  cases htext

/-- A file of the sample as a command line names it. -/
def Item.sample (name : String) : Item :=
  ⟨.ofString name, .ofString ("/w/" ++ name), "javascript".toList⟩

/-- A command line in the sample that asks for formatting, without further options. -/
def Accepted.sample (line : String) (request : FormatRequest)
    (parsed : Invocation.ofArguments (Text.chunks line.toList) =
      .ok { request := some (.format request) })
    (supported : request.forced?.filter (fun language => !Language.isSupported language) = none) :
    Accepted World.sample (Text.chunks line.toList) where
  invocation := { request := some (.format request) }
  request := request
  settings := { root := .ofString "/w" }
  parsed := parsed
  asked := rfl
  configured := rfl
  supported := supported

/-- A command line with an unknown language. Then a run that changes one file, cannot read another
and misses a third, and one that shows a difference; one that ends at the second of three files for
want of room, and one that ends at the first of two because it cannot be written. -/
theorem format_effect_sample :
    (IsEmpty (Accepted World.sample (Text.chunks "format --language x a.js".toList)) ∧
      (run World.sample (Text.chunks "format --language x a.js".toList)).ending.status = 1) ∧
    (∃ accepted : Accepted World.sample (Text.chunks "format a.js b.js c.js".toList),
      accepted.request.stdin = false ∧
      (run World.sample (Text.chunks "format a.js b.js c.js".toList)).progress.tree.bytes?
        (.ofString "/w/a.js") ≠ World.sample.tree.bytes? (.ofString "/w/a.js") ∧
      (∃ found, accepted.collected = .ok found ∧ ∃ item ∈ found.items,
        World.sample.tree.home item.path = World.sample.tree.home (.ofString "/w/a.js")) ∧
      accepted.formatRun.Fails accepted.settings World.sample.tree ∧
      (run World.sample (Text.chunks "format a.js b.js c.js".toList)).ending.status = 1 ∧
      (run World.sample (Text.chunks "format a.js b.js c.js".toList)).progress.tree =
        [Item.sample "a.js", .sample "b.js"].foldl accepted.formatRun.rewrite
          World.sample.tree) ∧
    (∃ accepted : Accepted World.sample (Text.chunks "format --diff a.js".toList),
      ¬accepted.formatRun.Fails accepted.settings World.sample.tree ∧
      (run World.sample (Text.chunks "format --diff a.js".toList)).ending.status = 0) ∧
    (∃ (trouble : Trouble) (shown : Progress),
      trouble.lines false =
        ["Error: OverflowError: cannot fit 'int' into an index-sized integer"] ∧
      run World.sample
          (Text.chunks "format --tab-size 10000000000000000000 b.js a.js b.js".toList) =
        shown.fail World.sample false trouble ∧
      ∃ failure : Failure, failure.IsLimit ∧ trouble = .ofFailure failure) ∧
    ∃ (trouble : Trouble) (shown : Progress),
      trouble.lines false =
        ["Error: PermissionError: [Errno 13] Permission denied: 'r.js'"] ∧
      run World.sample (Text.chunks "format r.js a.js".toList) =
        shown.fail World.sample false trouble ∧
      (run World.sample (Text.chunks "format r.js a.js".toList)).ending.status = 1 := by
  let mixed : Accepted World.sample (Text.chunks "format a.js b.js c.js".toList) :=
    .sample _ { paths := ["a.js".toList, "b.js".toList, "c.js".toList] } rfl rfl
  let shown : Accepted World.sample (Text.chunks "format --diff a.js".toList) :=
    .sample _ { paths := ["a.js".toList], diff := true } rfl rfl
  let large : Accepted World.sample
      (Text.chunks "format --tab-size 10000000000000000000 b.js a.js b.js".toList) :=
    .sample _
      { paths := ["b.js".toList, "a.js".toList, "b.js".toList]
        tabSize := some (.int 10000000000000000000) } rfl rfl
  let refused : Accepted World.sample (Text.chunks "format r.js a.js".toList) :=
    .sample _ { paths := ["r.js".toList, "a.js".toList] } rfl rfl
  refine ⟨?_, ⟨mixed, rfl, ?_⟩, ⟨shown, ?_⟩, ?_, ?_⟩
  · have hparsed : Invocation.ofArguments (Text.chunks "format --language x a.js".toList) =
        .ok { request := some (.format { paths := ["a.js".toList], language := some ['x'] }) } :=
      rfl
    have hnot :
        IsEmpty (Accepted World.sample (Text.chunks "format --language x a.js".toList)) := by
      refine ⟨fun accepted => ?_⟩
      have hrequest := accepted.asked
      rw [← Except.ok.inj (hparsed.symm.trans accepted.parsed)] at hrequest
      have hsupported := accepted.supported
      rw [← Request.format.inj (Option.some.inj hrequest)] at hsupported
      exact absurd hsupported (by decide +kernel)
    obtain ⟨_, hstatus⟩ := (format_effect World.sample _).1 hnot
    exact ⟨hnot, hstatus _ hparsed _ rfl⟩
  · obtain ⟨hbytes, hpaths⟩ := (format_effect World.sample _).2 mixed
    have hne : (run World.sample (Text.chunks "format a.js b.js c.js".toList)).progress.tree.bytes?
        (.ofString "/w/a.js") ≠ World.sample.tree.bytes? (.ofString "/w/a.js") := by
      decide +kernel
    have hfails : mixed.formatRun.Fails mixed.settings World.sample.tree :=
      .inl ⟨"c.js".toList, by decide, trivial⟩
    obtain ⟨_, _, _, found, hcollect, item, hitem, hhome, _⟩ := hbytes _ hne
    have hends := (hpaths rfl).2 ⟨[.sample "a.js", .sample "b.js"], ["Path not found: c.js"]⟩ rfl
    have hthrough : mixed.formatRun.trouble? World.sample.tree
        [.sample "a.js", .sample "b.js"] = none :=
      Option.isNone_iff_eq_none.mp (by decide +kernel)
    obtain ⟨htree, hstatus, _⟩ := hends.through hthrough
    exact ⟨hne, ⟨found, hcollect, item, hitem, hhome⟩, hfails, hstatus hfails, htree⟩
  · obtain ⟨_, hpaths⟩ := (format_effect World.sample _).2 shown
    have hsound : ¬shown.formatRun.Fails shown.settings World.sample.tree := by
      have hcollect : collect shown.formatRun.world shown.settings shown.formatRun.request =
        .ok ⟨[.sample "a.js"], []⟩ := rfl
      rw [FormatRun.fails_iff hcollect]
      decide +kernel
    have hends := (hpaths rfl).2 ⟨[.sample "a.js"], []⟩ rfl
    have hthrough : shown.formatRun.trouble? World.sample.tree [.sample "a.js"] = none :=
      Option.isNone_iff_eq_none.mp (by decide +kernel)
    exact ⟨hsound, (hends.through hthrough).2.2 hsound⟩
  · obtain ⟨_, hpaths⟩ := (format_effect World.sample _).2 large
    have hends := (hpaths rfl).2 ⟨[.sample "b.js", .sample "a.js", .sample "b.js"], []⟩ rfl
    have hlines : (large.formatRun.trouble? World.sample.tree
        [.sample "b.js", .sample "a.js", .sample "b.js"]).map (Trouble.lines false) =
          some ["Error: OverflowError: cannot fit 'int' into an index-sized integer"] := by
      decide +kernel
    obtain ⟨trouble, htrouble, hlines⟩ := Option.map_eq_some_iff.mp hlines
    obtain ⟨_, _, _, ended, _, _, _, _, hrun, _⟩ := hends.stopped trouble htrouble
    refine ⟨trouble, ended, hlines, hrun, ?_⟩
    rcases hends.reason World.plain_sample trouble htrouble with
      hlimit | ⟨item, hitem, refusal, hrefusal, _⟩
    · exact hlimit
    · have hwritable : [Item.sample "b.js", .sample "a.js", .sample "b.js"].all (fun item =>
          (World.sample.tree.refusal? item.path).isNone) = true := by
        decide +kernel
      have hnone := List.all_eq_true.mp hwritable item hitem
      rw [hrefusal] at hnone
      cases hnone
  · obtain ⟨_, hpaths⟩ := (format_effect World.sample _).2 refused
    have hends := (hpaths rfl).2 ⟨[.sample "r.js", .sample "a.js"], []⟩ rfl
    have hlines : (refused.formatRun.trouble? World.sample.tree
        [.sample "r.js", .sample "a.js"]).map (Trouble.lines false) =
          some ["Error: PermissionError: [Errno 13] Permission denied: 'r.js'"] := by
      decide +kernel
    obtain ⟨trouble, htrouble, hlines⟩ := Option.map_eq_some_iff.mp hlines
    obtain ⟨_, _, _, ended, _, _, _, _, hrun, _, hstatus⟩ := hends.stopped trouble htrouble
    exact ⟨trouble, ended, hlines, hrun, hstatus⟩

end SourceLayout.Command
