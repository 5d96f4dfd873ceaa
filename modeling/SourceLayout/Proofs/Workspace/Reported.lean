import SourceLayout.Command.Run
import SourceLayout.Proofs.Json.Bounds
import SourceLayout.Proofs.Workspace.Tree

/-!
# What is wrong with a settings file

Every step from the entries of a settings file to settings either succeeds or is reported with the
path of the file, since the values that the messages show can be shown. So is a text that cannot be
read. What is reported becomes an error of the command line. The one failure that is not reported is
that of a file that holds a value other than a table: its entries are asked for all the same.
-/

namespace SourceLayout

namespace Settings

/-- A result, or else a reason reported for the file with a path. -/
def Explained {α : Type} (path : String) (result : Except LoadError α) : Prop :=
  (∃ a, result = .ok a) ∨
    ∃ diagnostic : Diagnostic, result = .error (.reported diagnostic) ∧
      diagnostic.kind = .invalidConfig ∧ diagnostic.path = some path

section

variable {α β : Type} {path : String}

theorem explained_ok (a : α) : Explained path (.ok a : Except LoadError α) :=
  .inl ⟨a, rfl⟩

theorem explained_invalid (message : String) (hint : Option String) :
    Explained path (invalid path message hint : Except LoadError α) :=
  .inr ⟨_, rfl, rfl, rfl⟩

theorem Explained.bind {result : Except LoadError α} {next : α → Except LoadError β}
    (hresult : Explained path result) (hnext : ∀ a, result = .ok a → Explained path (next a)) :
    Explained path (result >>= next) := by
  rcases hresult with ⟨a, rfl⟩ | ⟨diagnostic, rfl, hreported⟩
  · exact hnext a rfl
  · exact .inr ⟨diagnostic, rfl, hreported⟩

theorem explained_foldlM {step : β → α → Except LoadError β} {inputs : List α}
    (hstep : ∀ done, ∀ input ∈ inputs, Explained path (step done input)) (start : β) :
    Explained path (inputs.foldlM step start) := by
  induction inputs generalizing start with
  | nil => exact explained_ok start
  | cons input inputs ih =>
      rw [List.foldlM_cons]
      refine (hstep start input List.mem_cons_self).bind fun next _ => ih ?_ next
      exact fun done other hother => hstep done other (List.mem_cons_of_mem input hother)

theorem explained_mapM {step : α → Except LoadError β} {inputs : List α}
    (hstep : ∀ input ∈ inputs, Explained path (step input)) :
    Explained path (inputs.mapM step) := by
  induction inputs with
  | nil => exact explained_ok []
  | cons input inputs ih =>
      rw [List.mapM_cons]
      refine (hstep input List.mem_cons_self).bind fun first _ => Explained.bind (ih ?_) ?_
      · exact fun other hother => hstep other (List.mem_cons_of_mem input hother)
      · exact fun others _ => explained_ok (first :: others)

end

/-! ### Sections -/

/-- Values that can be shown, whatever list or table they are put into. -/
def Showable [Machine] (entries : Entries) : Prop :=
  ∀ entry ∈ entries, entry.2.FitsIn Machine.writtenDepth

theorem showable_nil [Machine] : Showable [] := by
  simp [Showable]

theorem showable_of_table [Machine] {entries : Entries}
    (htable : (Value.table entries).FitsIn Machine.writtenDepth) : Showable entries :=
  Value.fitsIn_table_iff.mp (htable.mono (Nat.le_succ _))

section

variable {path name : String} {entries : Entries}

theorem explained_tableSection : Explained path (tableSection path name entries) := by
  rw [tableSection]
  split
  next => exact explained_ok []
  next inner _ => exact explained_ok inner
  next => exact explained_invalid _ _

variable [Machine]

theorem Showable.lookup? (h : Showable entries) {value : Value}
    (hvalue : lookup? name entries = some value) : value.FitsIn Machine.writtenDepth := by
  obtain ⟨before, after, rfl, _⟩ := List.lookup_eq_some_iff.mp hvalue
  exact h (.ofString name, value) (by simp)

theorem Showable.section? (h : Showable entries) {value : Value}
    (hvalue : section? name entries = some value) : value.FitsIn Machine.writtenDepth :=
  h.lookup? (Option.filter_eq_some_iff.mp hvalue).1

theorem Showable.tableSection (h : Showable entries) {inner : Entries}
    (hinner : tableSection path name entries = .ok inner) : Showable inner := by
  rw [Settings.tableSection] at hinner
  split at hinner
  next =>
      cases hinner
      exact showable_nil
  next hvalue =>
      cases hinner
      exact showable_of_table (h.section? hvalue)
  next => cases hinner

theorem explained_form {value : Value} (hvalue : value.FitsIn Machine.writtenDepth) :
    Explained path (shown value.form?) := by
  rw [Value.form?_of_fitsIn hvalue]
  exact explained_ok value.form

theorem explained_spelled {value : Value} (hvalue : value.FitsIn Machine.writtenDepth) :
    Explained path (shown value.spelled?) := by
  obtain ⟨spelled, hspelled⟩ := Value.exists_spelled?_of_fitsIn hvalue
  rw [hspelled]
  exact explained_ok spelled

theorem explained_tabSizeOf (h : Showable entries) : Explained path (tabSizeOf path entries) := by
  have hvalue : ((lookup? "tab_size" entries).getD (.int 4)).FitsIn Machine.writtenDepth := by
    cases hfound : lookup? "tab_size" entries with
    | none =>
        have hten : 10 ^ 1 ≤ 10 ^ digitLimit := Nat.pow_le_pow_right (by decide) (by decide)
        exact Value.fitsIn_int (Nat.lt_of_lt_of_le (by decide) hten) _
    | some value => exact h.lookup? hfound
  rw [tabSizeOf]
  split
  next size _ => exact explained_ok size
  next => exact (explained_form hvalue).bind fun _ _ => explained_invalid _ _

theorem explained_flagOf (h : Showable entries) (otherwise : Bool) :
    Explained path (flagOf path name otherwise entries) := by
  rw [flagOf]
  split
  next => exact explained_ok otherwise
  next flag _ => exact explained_ok flag
  next value _ hvalue =>
      exact (explained_form (h.lookup? hvalue)).bind fun _ _ => explained_invalid _ _

theorem explained_languagesOf (h : Showable entries) : Explained path (languagesOf path entries) := by
  refine explained_foldlM ?_ []
  rintro found ⟨suffix, value⟩ hentry
  refine (explained_spelled (h _ hentry)).bind fun spelled _ => ?_
  split
  next language _ => exact explained_ok (putLanguage suffix language found)
  next => exact explained_invalid _ _

theorem explained_excludeOf (h : Showable entries) : Explained path (excludeOf entries) := by
  rw [excludeOf]
  split
  next pattern _ => exact explained_ok [pattern]
  next values hvalues =>
      have hlist := Value.fitsIn_list_iff.mp ((h.section? hvalues).mono (Nat.le_succ _))
      exact explained_mapM fun value hvalue => explained_spelled (hlist value hvalue)
  next => exact explained_ok []

/-- Whatever is wrong with entries that can be shown is reported. -/
theorem explained_ofEntries (h : Showable entries) (root source : Path) :
    Explained source.string (ofEntries root source entries) := by
  rw [ofEntries]
  refine explained_tableSection.bind fun formatting hformatting => ?_
  have hshowable := h.tableSection hformatting
  refine (explained_tabSizeOf hshowable).bind fun tabSize _ => ?_
  refine (explained_flagOf hshowable true).bind fun insertSpaces _ => ?_
  refine (explained_flagOf hshowable false).bind fun finalNewline _ => ?_
  refine explained_tableSection.bind fun languages hlanguages => ?_
  refine (explained_languagesOf (h.tableSection hlanguages)).bind fun languages _ => ?_
  refine (explained_excludeOf h).bind fun exclude _ => ?_
  exact explained_ok _

end

/-! ### Files -/

section

variable [Machine] {source : Path} {bytes : ByteArray} {text : String}

theorem explained_entriesOf (hbytes : String.fromUTF8? bytes = some text)
    (hsuffix : source.suffix ≠ ".toml".toList)
    (hread : ∀ limit, Json.read text.toList ≠ .error (.beyond limit))
    (htable : ∀ value, Json.read text.toList = .ok value → ∃ entries, value = .table entries) :
    Explained source.string (entriesOf source bytes) := by
  rw [entriesOf, hbytes]
  dsimp only
  rw [if_neg hsuffix]
  cases hresult : Json.read text.toList with
  | ok value =>
      obtain ⟨entries, rfl⟩ := htable value hresult
      exact explained_ok entries
  | error error =>
      cases error with
      | malformed => exact explained_invalid _ _
      | beyond limit => exact absurd hresult (hread limit)

theorem showable_of_entriesOf (hbytes : String.fromUTF8? bytes = some text)
    (hsuffix : source.suffix ≠ ".toml".toList) {entries : Entries}
    (hentries : entriesOf source bytes = .ok entries) : Showable entries := by
  rw [entriesOf, hbytes] at hentries
  dsimp only at hentries
  rw [if_neg hsuffix] at hentries
  split at hentries
  next own hresult =>
      cases hentries
      exact showable_of_table ((Json.fitsIn_read hresult).mono Machine.jsonDepth_le)
  next => cases hentries
  next => cases hentries
  next => cases hentries

theorem entriesOf_of_not_table (hbytes : String.fromUTF8? bytes = some text)
    (hsuffix : source.suffix ≠ ".toml".toList) {value : Value}
    (hvalue : Json.read text.toList = .ok value) (hother : ∀ entries, value ≠ .table entries) :
    entriesOf source bytes = .error .noTable := by
  rw [entriesOf, hbytes]
  dsimp only
  rw [if_neg hsuffix, hvalue]
  cases value with
  | table entries => exact absurd rfl (hother entries)
  | null | bool | int | float | text | moment | list => rfl

end

end Settings

/-! ### Runs -/

/-- An absolute path leads to the same node from anywhere. -/
theorem Tree.find_resolve (tree : Tree) (current base other path : Path) :
    tree.find current (Path.resolve base path) = tree.find other (Path.resolve base path) :=
  rfl

namespace Command

/-- The error of the command line that tells a diagnostic. -/
def configError (diagnostic : Diagnostic) : Error where
  kind := .config
  message := diagnostic.render
  hint := diagnostic.hint
  context := [("path", (diagnostic.path.map fun path => .ofText path.toList).getD .null)]

/-- The settings that a run asks for. -/
def loaded [Machine] (world : World) (invocation : Invocation) : Except Settings.LoadError Settings :=
  Settings.load world.tree (workspaceRoot world.current invocation)
    ((namedConfig world.current invocation).map Prod.snd)

/-- A run whose settings are in a file that is read as JSON, with the path and text of the file. -/
structure Configured (world : World) (invocation : Invocation) (path : Path) (text : String) :
    Prop where
  paths : invocation.hasBadPath = false
  located : Settings.locate world.tree (workspaceRoot world.current invocation)
    ((namedConfig world.current invocation).map Prod.snd) = .ok (some path)
  file : ∃ place bytes,
    world.tree.find (workspaceRoot world.current invocation) path = .found (.file place bytes) ∧
      String.fromUTF8? bytes = some text
  suffix_ne : path.suffix ≠ ".toml".toList

section

variable {world : World} {invocation : Invocation} {path : Path} {text : String}

/-- A settings file that is named on the command line and found is one that the run goes on with. -/
theorem Configured.settingsOf_eq [Machine] (h : Configured world invocation path text) :
    settingsOf world invocation =
      match loaded world invocation with
      | .ok settings => .ok settings
      | .error (.reported diagnostic) => .error (.command (configError diagnostic))
      | .error error => .error (.unloadable error) := by
  have hlocated := h.located
  rw [settingsOf, loaded]
  dsimp only
  rw [h.paths, if_neg Bool.false_ne_true]
  cases hnamed : namedConfig world.current invocation with
  | none => rfl
  | some named =>
      obtain ⟨config, named⟩ := named
      obtain ⟨_, _, hpair⟩ := Option.map_eq_some_iff.mp hnamed
      cases hpair
      rw [hnamed, Option.map_some, Settings.locate, Settings.existing,
        Tree.find_resolve world.tree _ _ world.current] at hlocated
      dsimp only at hlocated ⊢
      split at hlocated
      next hfound =>
          rw [hfound]
          rfl
      next => cases hlocated
      next => cases hlocated

theorem Configured.exists_loaded_eq [Machine] (h : Configured world invocation path text) :
    ∃ bytes, String.fromUTF8? bytes = some text ∧
      loaded world invocation =
        (Settings.entriesOf path bytes >>=
          Settings.ofEntries (workspaceRoot world.current invocation) path) := by
  obtain ⟨place, bytes, hfile, hbytes⟩ := h.file
  refine ⟨bytes, hbytes, ?_⟩
  rw [loaded, Settings.load, h.located]
  dsimp only [bind, Except.bind]
  rw [hfile]

/-- **What is wrong with a settings file is reported.** If the text of the file is read as a table or
does not follow the format, settings are loaded or an invalid configuration is reported with the
path of the file, and this becomes a configuration error of the command line with the text, hint
and path of the report. If the text is read as a value of another kind, nothing is reported: neither
loading nor the command line has an explanation. Texts beyond a limit of the reader are left out. -/
theorem settingsOf_explained [Machine] (h : Configured world invocation path text)
    (hread : ∀ limit, Json.read text.toList ≠ .error (.beyond limit)) :
    ((∀ value, Json.read text.toList = .ok value → ∃ entries, value = .table entries) →
      (∃ settings, loaded world invocation = .ok settings ∧
        settingsOf world invocation = .ok settings) ∨
      ∃ diagnostic error, loaded world invocation = .error (.reported diagnostic) ∧
        diagnostic.kind = .invalidConfig ∧ diagnostic.path = some path.string ∧
        settingsOf world invocation = .error (.command error) ∧
        error.kind = .config ∧ error.code = "CLI_CONFIG_ERROR" ∧
        error.message = diagnostic.render ∧ error.hint = diagnostic.hint ∧
        error.context = [("path", .ofText path.string.toList)]) ∧
    ∀ value, Json.read text.toList = .ok value → (∀ entries, value ≠ .table entries) →
      loaded world invocation = .error .noTable ∧
        settingsOf world invocation = .error (.unloadable .noTable) := by
  obtain ⟨bytes, hbytes, hloaded⟩ := h.exists_loaded_eq
  rw [h.settingsOf_eq]
  refine ⟨fun htable => ?_, fun value hvalue hother => ?_⟩
  · have hexplained : Settings.Explained path.string (loaded world invocation) := by
      rw [hloaded]
      refine (Settings.explained_entriesOf hbytes h.suffix_ne hread htable).bind ?_
      intro entries hentries
      have hshowable := Settings.showable_of_entriesOf hbytes h.suffix_ne hentries
      exact Settings.explained_ofEntries hshowable ..
    rcases hexplained with ⟨settings, hok⟩ | ⟨diagnostic, herror, hkind, hpath⟩
    · rw [hok]
      exact .inl ⟨settings, rfl, rfl⟩
    · rw [herror]
      refine .inr ⟨diagnostic, configError diagnostic, rfl, hkind, hpath, rfl, rfl, rfl, rfl, rfl, ?_⟩
      rw [configError, hpath]
      rfl
  · have hnone : loaded world invocation = .error .noTable := by
      rw [hloaded, Settings.entriesOf_of_not_table hbytes h.suffix_ne hvalue hother]
      rfl
    rw [hnone]
    exact ⟨rfl, rfl⟩

end

/-- A workspace whose settings file holds an empty list. -/
def listed : World where
  tree :=
    { files := [(.ofString "/w/.codebeautifierrc", "[]".toUTF8)]
      directories := [.ofString "/w"] }
  current := .ofString "/w"

theorem configured_listed : Configured listed {} (.ofString "/w/.codebeautifierrc") "[]" where
  paths := by decide +kernel
  located := by
    have hlocated : (Settings.locate listed.tree (workspaceRoot listed.current {}) none).toOption =
        some (some (.ofString "/w/.codebeautifierrc")) := by decide +kernel
    exact Line.eq_ok_of_toOption hlocated
  file := ⟨.ofString "/w/.codebeautifierrc", "[]".toUTF8, rfl, by rw [Tree.fromUTF8?_toUTF8]⟩
  suffix_ne := by decide +kernel

/-- A list has no entries, and nothing is reported. -/
theorem settingsOf_explained_list :
    Configured listed {} (.ofString "/w/.codebeautifierrc") "[]" ∧
      Json.read "[]".toList = .ok (.list []) ∧
      (∀ limit, Json.read "[]".toList ≠ .error (.beyond limit)) ∧
      loaded listed {} = .error .noTable ∧
      settingsOf listed {} = .error (.unloadable .noTable) := by
  have hvalue : Json.read "[]".toList = .ok (.list []) := rfl
  have hread : ∀ limit, Json.read "[]".toList ≠ .error (.beyond limit) := by
    intro limit hbeyond
    rw [hvalue] at hbeyond
    cases hbeyond
  obtain ⟨_, hother⟩ := settingsOf_explained configured_listed hread
  exact ⟨configured_listed, hvalue, hread, hother _ hvalue nofun⟩

end Command

end SourceLayout
