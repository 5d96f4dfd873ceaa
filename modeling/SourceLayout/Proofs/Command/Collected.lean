import SourceLayout.Command.Run
import SourceLayout.Proofs.Workspace.Settings
import SourceLayout.Proofs.Workspace.Tree

/-!
# Which files arguments stand for

Every argument adds its files and its problems, in the order of the arguments. The language of a
file is forced on it or goes by the suffix of its name, and however an argument leads to a file, it
ends in that name. So all arguments that lead to one file give it one language.
-/

namespace SourceLayout

namespace Command

theorem valid_settingsOf [Machine] {world : World} {invocation : Invocation} {settings : Settings}
    (hsettings : settingsOf world invocation = .ok settings) : settings.Valid := by
  have hload : ∃ named, Settings.load world.tree (workspaceRoot world.current invocation) named =
      .ok settings := by
    rw [settingsOf] at hsettings
    dsimp only at hsettings
    split at hsettings
    next => cases hsettings
    next =>
        split at hsettings
        next =>
            split at hsettings <;> cases hsettings
            next hload => exact ⟨none, hload⟩
        next config path _ =>
            split at hsettings
            next =>
                split at hsettings <;> cases hsettings
                next hload => exact ⟨some path, hload⟩
            next => cases hsettings
            next => cases hsettings
  obtain ⟨named, hload⟩ := hload
  exact Settings.valid_load hload

/-! ### Arguments -/

/-- An argument that no file is formatted for: there is nothing to be found at its path, or a file
without a language. -/
def Refused (world : World) (settings : Settings) (request : FormatRequest) (argument : Text) :
    Prop :=
  match world.tree.find world.current (.ofText argument) with
  | .found (.directory _) => False
  | .found (.file _ _) | .found (.sealed _) =>
      request.forced?.or (settings.languageFor? (.ofText argument)) = none
  | .missing | .tooLong => True

variable {world : World} {settings : Settings} {request : FormatRequest} {argument : Text}
  {found : Collected}

theorem not_refused_iff :
    ¬Refused world settings request argument ↔
      ∃ part, collectOne world settings request argument = .ok part ∧ part.problems = [] := by
  rw [Refused, collectOne]
  dsimp only
  cases world.tree.find world.current (.ofText argument) with
  | missing => simp
  | tooLong => simp
  | found node =>
      cases node with
      | directory place => simp
      | file _ _ | «sealed» _ =>
          simp only [collectFile]
          cases request.forced?.or (settings.languageFor? (.ofText argument)) <;> simp

/-- What some arguments add to what was collected before. -/
theorem collect_from {arguments : List Text} {start : Collected}
    (hcollect : arguments.foldlM
      (fun found argument => (collectOne world settings request argument).map found.append) start =
        .ok found) :
    (∀ item, item ∈ found.items ↔ item ∈ start.items ∨ ∃ argument ∈ arguments, ∃ part,
        collectOne world settings request argument = .ok part ∧ item ∈ part.items) ∧
      (found.problems = [] ↔ start.problems = [] ∧
        ∀ argument ∈ arguments, ¬Refused world settings request argument) := by
  induction arguments generalizing start with
  | nil =>
      cases hcollect
      simp
  | cons argument arguments ih =>
      rw [List.foldlM_cons] at hcollect
      obtain ⟨next, hnext, hrest⟩ := exists_of_bind_eq_ok hcollect
      obtain ⟨hitems, hproblems⟩ := ih hrest
      cases hone : collectOne world settings request argument with
      | error trouble => rw [hone] at hnext; cases hnext
      | ok part =>
          rw [hone] at hnext
          cases hnext
          have hrefused : ¬Refused world settings request argument ↔ part.problems = [] := by
            simp [not_refused_iff, hone]
          refine ⟨fun item => ?_, ?_⟩
          · simp [hitems item, Collected.append, hone, or_assoc]
          · simp [hproblems, Collected.append, hrefused, and_assoc]

theorem mem_items_iff (hcollect : collect world settings request = .ok found) (item : Item) :
    item ∈ found.items ↔ ∃ argument ∈ request.paths, ∃ part,
      collectOne world settings request argument = .ok part ∧ item ∈ part.items := by
  simpa using (collect_from hcollect).1 item

theorem problems_eq_nil_iff (hcollect : collect world settings request = .ok found) :
    found.problems = [] ↔
      ∀ argument ∈ request.paths, ¬Refused world settings request argument := by
  simpa using (collect_from hcollect).2

/-- Nothing is collected only if some argument is refused. -/
theorem exists_refused_of_error {trouble : Trouble}
    (hcollect : collect world settings request = .error trouble) :
    ∃ argument ∈ request.paths, Refused world settings request argument := by
  rw [collect] at hcollect
  revert hcollect
  generalize ({} : Collected) = start
  induction request.paths generalizing start with
  | nil => intro hcollect; cases hcollect
  | cons argument arguments ih =>
      intro hcollect
      rw [List.foldlM_cons] at hcollect
      cases hone : collectOne world settings request argument with
      | error other =>
          refine ⟨argument, List.mem_cons_self, ?_⟩
          refine Classical.byContradiction fun hnot => ?_
          obtain ⟨part, hpart, _⟩ := not_refused_iff.mp hnot
          rw [hone] at hpart
          cases hpart
      | ok part =>
          rw [hone] at hcollect
          obtain ⟨later, hlater, hrefused⟩ := ih _ hcollect
          exact ⟨later, List.mem_cons_of_mem _ hlater, hrefused⟩

/-! ### One language for every file -/

/-- The language of a file is the forced one or goes by its name, which is that of the place it was
found at unless it has no suffix. -/
structure Item.Named (settings : Settings) (request : FormatRequest) (item : Item) : Prop where
  language : request.forced?.or (settings.languageFor? item.shown) = some item.language
  name : item.shown.suffix = [] ∨ item.shown.name = item.path.name

theorem named_of_collectFile {node : Tree.Node}
    (hfind : world.tree.find world.current (.ofText argument) = .found node)
    (hfile : ∀ place, node ≠ .directory place) {item : Item}
    (hitem : item ∈ (collectFile settings request argument node.place).items) :
    item.Named settings request := by
  rw [collectFile] at hitem
  split at hitem
  next language hlanguage =>
      obtain rfl := List.mem_singleton.mp hitem
      refine ⟨hlanguage, (Tree.name_of_find hfind hfile).imp_left fun hdots => ?_⟩
      rw [Path.suffix, hdots]
      rfl
  next => cases hitem

theorem named_of_collectOne (hone : collectOne world settings request argument = .ok found)
    {item : Item} (hitem : item ∈ found.items) : item.Named settings request := by
  rw [collectOne] at hone
  dsimp only at hone
  split at hone
  next => cases hone
  next => cases hone; cases hitem
  next place bytes hfind =>
      cases hone
      exact named_of_collectFile hfind nofun hitem
  next place hfind =>
      cases hone
      exact named_of_collectFile hfind nofun hitem
  next place hfind =>
      cases hone
      obtain ⟨parts, hfile, hkept⟩ := List.mem_filterMap.mp hitem
      split at hkept
      next => cases hkept
      next =>
          obtain ⟨language, hlanguage, rfl⟩ := Option.map_eq_some_iff.mp hkept
          exact ⟨hlanguage, .inr (Path.name_append (Tree.ne_nil_of_mem_filesBelow hfile) _ _ _)⟩

/-- However arguments lead to a file, they give it one language. -/
theorem language_eq_of_collect (hvalid : settings.Valid)
    (hcollect : collect world settings request = .ok found) {item other : Item}
    (hitem : item ∈ found.items) (hother : other ∈ found.items)
    (hparts : item.path.parts = other.path.parts) : item.language = other.language := by
  have hnamed : ∀ item ∈ found.items, item.Named settings request := by
    intro item hitem
    obtain ⟨_, _, part, hone, hmem⟩ := (mem_items_iff hcollect item).mp hitem
    exact named_of_collectOne hone hmem
  have hitemNamed := hnamed item hitem
  have hotherNamed := hnamed other hother
  cases hforced : request.forced? with
  | some language =>
      have h := hitemNamed.language
      have h' := hotherNamed.language
      rw [hforced, Option.some_or] at h h'
      exact Option.some.inj (h.symm.trans h')
  | none =>
      have hpath : ∀ item ∈ found.items, settings.languageFor? item.shown = some item.language ∧
          item.shown.name = item.path.name := by
        intro item hitem
        obtain ⟨hlanguage, hname⟩ := hnamed item hitem
        rw [hforced, Option.none_or] at hlanguage
        refine ⟨hlanguage, hname.resolve_left fun hsuffix => ?_⟩
        rw [Settings.languageFor?_of_suffix_nil hvalid hsuffix] at hlanguage
        cases hlanguage
      obtain ⟨hlanguage, hname⟩ := hpath item hitem
      obtain ⟨hlanguage', hname'⟩ := hpath other hother
      have hsuffix : item.shown.suffix = other.shown.suffix := by
        apply Path.suffix_congr
        rw [hname, hname', Path.name, Path.name, hparts]
      rw [Settings.languageFor?, hsuffix, ← Settings.languageFor?, hlanguage'] at hlanguage
      exact (Option.some.inj hlanguage).symm

end Command

end SourceLayout
