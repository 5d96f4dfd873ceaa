import SourceLayout.Proofs.Command.File

/-!
# What a run does to its files

The files of a run are read, formatted and written one after another, and every one of them sees
the tree that those before it have left, until the run stops at one. What is counted can all the
same be seen from the tree before the run: a file that can be read can still be read when its turn
comes. If no file comes twice, so can be seen where the run stops.
-/

namespace SourceLayout.Command

/-- The exit status. A trouble that is passed on ends a run like one that is shown. -/
def Ending.status : Ending → Nat
  | .exit status => status
  | .raised _ | .unloadable _ => 1

theorem Progress.status_fail (progress : Progress) (world : World) (verbose : Bool)
    (trouble : Trouble) : (progress.fail world verbose trouble).ending.status = 1 := by
  rw [fail]
  split <;> rfl

theorem Progress.tree_fail (progress : Progress) (world : World) (verbose : Bool)
    (trouble : Trouble) : (progress.fail world verbose trouble).progress.tree = progress.tree := by
  rw [fail]
  split <;> rfl

namespace FormatRun

/-! ### The end of a run -/

theorem status_finish (run : FormatRun) (progress : Progress) (tally : Tally) :
    (run.finish progress tally).ending.status =
      if (run.request.check = true ∧ 0 < tally.changed) ∨ 0 < tally.failed then 1 else 0 := by
  rw [finish]
  by_cases hchanged : run.request.check = true ∧ 0 < tally.changed
  · rw [if_pos hchanged, if_pos (.inl hchanged), Ending.status]
  · rw [if_neg hchanged]
    dsimp only
    simp only [hchanged, false_or]
    by_cases hfailed : 0 < tally.failed
    · rw [if_pos hfailed, if_pos hfailed, Ending.status]
    · rw [if_neg hfailed, if_neg hfailed, Ending.status]

theorem tree_finish (run : FormatRun) (progress : Progress) (tally : Tally) :
    (run.finish progress tally).progress.tree = progress.tree := by
  rw [finish]
  dsimp only
  repeat' split
  all_goals rfl

/-! ### Stops -/

variable [Machine] {run : FormatRun} {tree : Tree} {item : Item} {items before after : List Item}

/-- What ends a run before it is through with its files. -/
def trouble? (run : FormatRun) (tree : Tree) : List Item → Option Trouble
  | [] => none
  | item :: items => (run.stop? tree item).or (run.trouble? (run.rewrite tree item) items)

/-- The files that have their turn. -/
def reached (run : FormatRun) (tree : Tree) : List Item → List Item
  | [] => []
  | item :: items =>
      item :: match run.stop? tree item with
        | some _ => []
        | none => run.reached (run.rewrite tree item) items

theorem reached_prefix (run : FormatRun) (tree : Tree) (items : List Item) :
    run.reached tree items <+: items := by
  induction items generalizing tree with
  | nil => exact List.nil_prefix
  | cons item items ih =>
      rw [reached, List.prefix_cons_inj]
      split
      · exact List.nil_prefix
      · exact ih _

/-- Without trouble every file has its turn. -/
theorem reached_of_trouble? (h : run.trouble? tree items = none) :
    run.reached tree items = items := by
  induction items generalizing tree with
  | nil => rfl
  | cons item items ih =>
      rw [trouble?, Option.or_eq_none_iff] at h
      rw [reached, h.1]
      exact congrArg (item :: ·) (ih h.2)

/-- Trouble comes from one file, which those before it have led to, and no file after it has its
turn. -/
theorem exists_stop {trouble : Trouble} (h : run.trouble? tree items = some trouble) :
    ∃ before item after, items = before ++ item :: after ∧
      run.trouble? tree before = none ∧
      run.stop? (before.foldl run.rewrite tree) item = some trouble ∧
      run.reached tree items = before ++ [item] := by
  induction items generalizing tree with
  | nil => cases h
  | cons first items ih =>
      rw [trouble?] at h
      cases hstop : run.stop? tree first with
      | some own =>
          rw [hstop] at h
          cases h
          exact ⟨[], first, items, rfl, rfl, hstop, by rw [reached, hstop, List.nil_append]⟩
      | none =>
          rw [hstop, Option.none_or] at h
          obtain ⟨before, item, after, rfl, hbefore, hitem, hreached⟩ := ih h
          refine ⟨first :: before, item, after, rfl, ?_, hitem, ?_⟩
          · rw [trouble?, hstop, Option.none_or, hbefore]
          · rw [reached, hstop, hreached, List.cons_append]

/-- If no file comes twice, the tree before the run tells which one it stops at. -/
theorem trouble?_of_pairwise
    (hapart : items.Pairwise fun item other => tree.home item.path ≠ tree.home other.path) :
    run.trouble? tree items = items.findSome? (run.stop? tree) := by
  induction items generalizing tree with
  | nil => rfl
  | cons first items ih =>
      obtain ⟨hfirst, hothers⟩ := List.pairwise_cons.mp hapart
      have hnames := run.sameNames_rewrite tree first
      have hlater : ∀ other ∈ items,
          run.stop? (run.rewrite tree first) other = run.stop? tree other :=
        fun other hother => stop?_rewrite_of_ne (Ne.symm (hfirst other hother))
      rw [trouble?, List.findSome?_cons, ih (hothers.imp fun h => by rwa [hnames.home, hnames.home]),
        ← List.head?_filterMap, List.filterMap_congr hlater, List.head?_filterMap]
      cases run.stop? tree first <;> rfl

/-- In a plain tree a run ends early for want of room, or at a file that cannot be written. -/
theorem reason_of_trouble? (hplain : tree.Plain) {trouble : Trouble}
    (h : run.trouble? tree items = some trouble) :
    (∃ failure : Failure, failure.IsLimit ∧ trouble = .ofFailure failure) ∨
      ∃ item ∈ items, ∃ refusal, tree.refusal? item.path = some refusal ∧
        trouble = refused refusal item.shown := by
  induction items generalizing tree with
  | nil => cases h
  | cons first items ih =>
      rw [trouble?] at h
      cases hstop : run.stop? tree first with
      | some own =>
          rw [hstop] at h
          cases h
          exact (reason_of_stop? hplain hstop).imp_right fun hrefusal =>
            ⟨first, List.mem_cons_self, hrefusal⟩
      | none =>
          rw [hstop, Option.none_or] at h
          refine (ih (plain_rewrite hplain hstop) h).imp_right ?_
          rintro ⟨item, hitem, refusal, hrefusal, htrouble⟩
          rw [(run.sameNames_rewrite tree first).refusal?] at hrefusal
          exact ⟨item, List.mem_cons_of_mem first hitem, refusal, hrefusal, htrouble⟩

/-! ### The tree after some files -/

/-- Only a file that would be changed as it is does a run write. -/
theorem exists_changed_of_ne {path : Path}
    (hbytes : (items.foldl run.rewrite tree).bytes? path ≠ tree.bytes? path) :
    run.writes = true ∧ ∃ item ∈ items, tree.home item.path = tree.home path ∧
      ∃ text, run.fate tree item = .changed text := by
  induction items generalizing tree with
  | nil => exact absurd rfl hbytes
  | cons first items ih =>
      rw [List.foldl_cons] at hbytes
      by_cases hfirst : (run.rewrite tree first).bytes? path = tree.bytes? path
      · -- The bytes that a later file was changed from were there from the start.
        have hnames := run.sameNames_rewrite tree first
        rw [← hfirst] at hbytes
        obtain ⟨hwrites, item, hitem, hafter, text, hfate⟩ := ih hbytes
        have hhome : tree.home item.path = tree.home path := by
          rwa [hnames.home, hnames.home] at hafter
        have hsame : (run.rewrite tree first).bytes? item.path = tree.bytes? item.path := by
          rw [Tree.bytes?_congr hafter, Tree.bytes?_congr hhome, hfirst]
        have htext : item.text? (run.rewrite tree first) = item.text? tree := by
          rw [Item.text?, Item.text?, hnames.text?_eq hsame]
        exact ⟨hwrites, item, List.mem_cons_of_mem first hitem, hhome, text,
          fate_congr htext ▸ hfate⟩
      · rcases run.rewrite_cases tree first with h | ⟨hwrites, text, hfate, h⟩
        · rw [h] at hfirst
          exact absurd rfl hfirst
        · refine ⟨hwrites, first, List.mem_cons_self, ?_, text, hfate⟩
          by_contra hne
          exact hfirst (bytes?_rewrite_of_ne (Ne.symm hne))

/-! ### Runs -/

/-- A run leaves the tree as those of its files that have their turn do, and tells of them alone. If
it is through with its files, what it has counted can be seen from the tree before. -/
theorem files_spec (run : FormatRun) (items : List Item) (progress : Progress) (tally : Tally) :
    ∃ shown : Progress,
      shown.tree = (run.reached progress.tree items).foldl run.rewrite progress.tree ∧
      match run.trouble? progress.tree items with
      | some trouble => run.files items progress tally = .error (trouble, shown)
      | none => ∃ counted, run.files items progress tally = .ok (shown, counted) ∧
          counted.failed = tally.failed +
            items.countP (fun item => (run.fate progress.tree item).isWrong) ∧
          (run.writes = false → counted.changed = tally.changed +
            items.countP fun item => (run.fate progress.tree item).isChanged) := by
  induction items generalizing progress tally with
  | nil => exact ⟨progress, rfl, tally, rfl, rfl, fun _ => rfl⟩
  | cons item items ih =>
      obtain ⟨next, htree, hfile⟩ := run.file_spec item progress tally
      rw [trouble?, reached, files, hfile]
      cases hstop : run.stop? progress.tree item with
      | some trouble => exact ⟨next, htree, rfl⟩
      | none =>
          dsimp only
          rw [Option.none_or, List.foldl_cons, ← htree]
          obtain ⟨shown, hshown, hrest⟩ := ih next (tally.add (run.fate progress.tree item))
          refine ⟨shown, hshown, ?_⟩
          split
          next trouble htrouble =>
              rw [htrouble] at hrest
              exact hrest
          next hnone =>
              rw [hnone] at hrest
              obtain ⟨counted, hfiles, hfailed, hchanged⟩ := hrest
              refine ⟨counted, hfiles, ?_, fun hwrites => ?_⟩
              · have hsame : ∀ other, (run.fate next.tree other).isWrong =
                    (run.fate progress.tree other).isWrong := by
                  rw [htree]
                  exact isWrong_fate_rewrite hstop
                simp only [hfailed, hsame, List.countP_cons, Tally.add]
                cases (run.fate progress.tree item).isWrong <;> simp
                omega
              · rw [rewrite_of_not_writes hwrites] at htree
                rw [hchanged hwrites, htree, List.countP_cons, Tally.add]
                cases (run.fate progress.tree item).isChanged <;> simp
                omega

/-- The files after the one that a run stops at make no difference. -/
theorem files_reached (run : FormatRun) (items : List Item) (progress : Progress)
    (tally : Tally) :
    run.files (run.reached progress.tree items) progress tally =
      run.files items progress tally := by
  induction items generalizing progress tally with
  | nil => rfl
  | cons item items ih =>
      obtain ⟨next, htree, hfile⟩ := run.file_spec item progress tally
      rw [reached, files, files, hfile]
      cases hstop : run.stop? progress.tree item with
      | some trouble => rfl
      | none =>
          dsimp only
          rw [← htree, ih]

end FormatRun

end SourceLayout.Command
