import SourceLayout.Proofs.Plain
import SourceLayout.Workspace.Settings

/-!
# Settings that were loaded

Whatever a settings file holds, settings are only loaded from it if the tab size is a positive number
and every suffix is given a supported language. The formatter asks for nothing else of a text without
marks but room for its indentation, so this is all that can still go wrong.
-/

namespace SourceLayout

theorem mem_putEntry {κ α : Type} [DecidableEq κ] {key : κ} {value : α} {entries : List (κ × α)}
    {entry : κ × α} (hentry : entry ∈ putEntry key value entries) :
    entry = (key, value) ∨ entry ∈ entries := by
  induction entries with
  | nil => exact .inl (List.mem_singleton.mp hentry)
  | cons first entries ih =>
      rw [putEntry] at hentry
      split at hentry
      next => exact (List.mem_cons.mp hentry).imp_right (List.mem_cons_of_mem first)
      next =>
          rcases List.mem_cons.mp hentry with rfl | hentry
          · exact .inr List.mem_cons_self
          · exact (ih hentry).imp_right (List.mem_cons_of_mem first)

namespace Language

/-- The supported identifiers are in normal form. -/
theorem isSupported_of_mem {language : Text} (hlanguage : language ∈ supported.map String.toList) :
    isSupported language = true := by
  have hall : ∀ id ∈ supported.map String.toList, isSupported id = true := by decide +kernel
  exact hall language hlanguage

theorem isSupported_of_ofSuffix? {extra : List (Text × Text)} {suffix language : Text}
    (hextra : ∀ entry ∈ extra, entry.2 ∈ supported.map String.toList)
    (hlanguage : ofSuffix? extra suffix = some language) : isSupported language = true := by
  have hsuffixes : ∀ entry ∈ suffixes, isSupported entry.2.toList = true := by decide +kernel
  rw [ofSuffix?] at hlanguage
  split at hlanguage
  next entry hfound =>
      cases hlanguage
      exact isSupported_of_mem (hextra entry (List.mem_of_find?_eq_some hfound))
  next =>
      obtain ⟨entry, hfound, rfl⟩ := Option.map_eq_some_iff.mp hlanguage
      exact hsuffixes entry (List.mem_of_find?_eq_some hfound)

end Language

namespace Settings

/-- What loading checks. -/
structure Valid (settings : Settings) : Prop where
  tabSize_pos : 0 < settings.tabSize
  suffix_ne_nil : ∀ entry ∈ settings.languages, entry.1 ≠ []
  supported : ∀ entry ∈ settings.languages, entry.2 ∈ Language.supported.map String.toList

theorem suffixKey_ne_nil (suffix : Text) : suffixKey suffix ≠ [] := by
  rw [suffixKey]
  split <;> exact List.cons_ne_nil _ _

theorem supported_of_languageNamed? {spelled : Spelling} {language : Text}
    (hlanguage : languageNamed? spelled = some language) :
    language ∈ Language.supported.map String.toList := by
  obtain ⟨_, hknown⟩ := Option.filter_eq_some_iff.mp hlanguage
  obtain ⟨id, hid, hname⟩ := List.any_eq_true.mp hknown
  exact List.mem_map.mpr ⟨id, hid, beq_iff_eq.mp hname⟩

/-- Every entry of the table of languages has been checked. -/
theorem forall_mem_languagesOf [Machine] {P : Text × Text → Prop}
    (hput : ∀ suffix language, language ∈ Language.supported.map String.toList →
      P (suffixKey suffix, language))
    {path : String} {entries : Entries} {languages : List (Text × Text)}
    (hlanguages : languagesOf path entries = .ok languages) : ∀ entry ∈ languages, P entry := by
  rw [languagesOf] at hlanguages
  have hstart : ∀ entry ∈ ([] : List (Text × Text)), P entry := by simp
  revert hlanguages hstart
  generalize ([] : List (Text × Text)) = found
  intro hlanguages hfound
  induction entries generalizing found with
  | nil =>
      cases hlanguages
      exact hfound
  | cons entry entries ih =>
      rw [List.foldlM_cons] at hlanguages
      obtain ⟨next, hnext, hrest⟩ := exists_of_bind_eq_ok hlanguages
      obtain ⟨spelled, _, hnext⟩ := exists_of_bind_eq_ok hnext
      refine ih next hrest ?_
      split at hnext
      next language hnamed =>
          cases hnext
          rw [putLanguage]
          split
          next suffix _ =>
              intro other hother
              rcases mem_putEntry hother with rfl | hother
              · exact hput suffix language (supported_of_languageNamed? hnamed)
              · exact hfound other hother
          next => exact hfound
      next => cases hnext

theorem tabSizeOf_pos [Machine] {path : String} {entries : Entries} {size : Nat}
    (hsize : tabSizeOf path entries = .ok size) : 0 < size := by
  rw [tabSizeOf] at hsize
  split at hsize
  next hpositive =>
      cases hsize
      exact Options.pos_of_positive? hpositive
  next =>
      obtain ⟨_, _, hinvalid⟩ := exists_of_bind_eq_ok hsize
      cases hinvalid

theorem valid_ofEntries [Machine] {root source : Path} {entries : Entries} {settings : Settings}
    (hentries : ofEntries root source entries = .ok settings) : settings.Valid := by
  rw [ofEntries] at hentries
  obtain ⟨_, _, hentries⟩ := exists_of_bind_eq_ok hentries
  obtain ⟨size, hsize, hentries⟩ := exists_of_bind_eq_ok hentries
  obtain ⟨_, _, hentries⟩ := exists_of_bind_eq_ok hentries
  obtain ⟨_, _, hentries⟩ := exists_of_bind_eq_ok hentries
  obtain ⟨_, _, hentries⟩ := exists_of_bind_eq_ok hentries
  obtain ⟨languages, hlanguages, hentries⟩ := exists_of_bind_eq_ok hentries
  obtain ⟨_, _, hentries⟩ := exists_of_bind_eq_ok hentries
  cases hentries
  exact
    { tabSize_pos := tabSizeOf_pos hsize
      suffix_ne_nil :=
        forall_mem_languagesOf (fun suffix _ _ => suffixKey_ne_nil suffix) hlanguages
      supported := forall_mem_languagesOf (fun _ _ hlanguage => hlanguage) hlanguages }

theorem valid_default (root : Path) : ({ root := root } : Settings).Valid where
  tabSize_pos := Nat.succ_pos 3
  suffix_ne_nil := by simp
  supported := by simp

theorem valid_load [Machine] {tree : Tree} {root : Path} {named : Option Path} {settings : Settings}
    (hload : load tree root named = .ok settings) : settings.Valid := by
  rw [load] at hload
  obtain ⟨located, _, hload⟩ := exists_of_bind_eq_ok hload
  split at hload
  next =>
      cases hload
      exact valid_default root
  next =>
      split at hload
      next =>
          obtain ⟨_, _, hentries⟩ := exists_of_bind_eq_ok hload
          exact valid_ofEntries hentries
      next => cases hload

/-- A name without a suffix has no language. -/
theorem languageFor?_of_suffix_nil {settings : Settings} (hvalid : settings.Valid) {path : Path}
    (hsuffix : path.suffix = []) : settings.languageFor? path = none := by
  have hown : settings.languages.find? (fun entry => entry.1 == lower []) = none := by
    rw [List.find?_eq_none]
    intro entry hentry
    simpa [lower, lowerFrom] using hvalid.suffix_ne_nil entry hentry
  rw [languageFor?, hsuffix, Language.ofSuffix?, hown]
  rfl

theorem positive?_tabSize {settings : Settings} (hvalid : settings.Valid) (useTabs : Option Bool) :
    (settings.options none useTabs).tabSize.positive? = some settings.tabSize := by
  have hpos : (0 : Int) < settings.tabSize := Int.natCast_pos.mpr hvalid.tabSize_pos
  rw [options, Option.getD_none, Value.positive?, if_pos hpos, Int.toNat_natCast]

/-- A file that only sets the tab size, to whatever positive number, is accepted. -/
theorem ofEntries_tabSize [Machine] (root source : Path) {size : Nat} (hsize : 0 < size) :
    ofEntries root source
        [(.ofString "formatting", .table [(.ofString "tab_size", .int size)])] =
      .ok { root := root, tabSize := size, source := some source } := by
  have hpositive : (Value.int size).positive? = some size := by
    rw [Value.positive?, if_pos (Int.natCast_pos.mpr hsize), Int.toNat_natCast]
  have htabSize : tabSizeOf source.string [(.ofString "tab_size", .int size)] = .ok size := by
    have hlookup : lookup? "tab_size" [(.ofString "tab_size", .int size)] = some (.int size) := by
      simp [lookup?]
    rw [tabSizeOf, hlookup, Option.getD_some, hpositive]
  have hsection : tableSection source.string "formatting"
      [(.ofString "formatting", .table [(.ofString "tab_size", .int size)])] =
        .ok [(.ofString "tab_size", .int size)] := by
    rfl
  rw [ofEntries, hsection]
  dsimp only [bind, Except.bind]
  rw [htabSize]
  rfl

/-- **Settings that are loaded can be used**, whatever the file holds: for every path that they give a
language, with tabs or spaces as they say or as they are told, every text without marks is formatted
and no error is reported, exactly unless there is no room for it. There must be room for all levels
of every line, and no tab size is refused for that when settings are loaded. -/
theorem format_loaded_iff [Machine] {tree : Tree} {root : Path} {named : Option Path}
    {settings : Settings} (hload : load tree root named = .ok settings) {path : Path}
    {language : Text} (hlanguage : settings.languageFor? path = some language)
    (useTabs : Option Bool) (shown : Option String) {text : Text} (htext : text.Plain) :
    ((∃ outcome,
        (settings.options none useTabs).format (some language) shown text = .ok outcome ∧
          outcome.errors = []) ↔
      (settings.options none useTabs).Fits settings.tabSize (some language) text) ∧
    (∀ outcome, (settings.options none useTabs).format (some language) shown text = .ok outcome →
      outcome.errors = []) ∧
    ((settings.options none useTabs).Fits settings.tabSize (some language) text →
      (settings.options none useTabs).style = .spaces →
      ∀ family, Language.family? language = some family →
        ∀ slot, .ok slot ∈ Layout.slots family (some (Language.normalize language)) text.lines →
          Holds (slot.level * settings.tabSize)) ∧
    ∀ (source : Path) (size : Nat), 0 < size →
      ofEntries root source
          [(.ofString "formatting", .table [(.ofString "tab_size", .int size)])] =
        .ok { root := root, tabSize := size, source := some source } := by
  have hvalid := valid_load hload
  have hsupported := Language.isSupported_of_ofSuffix? hvalid.supported hlanguage
  have hsize := positive?_tabSize hvalid useTabs
  have hnone : ∀ outcome,
      (settings.options none useTabs).format (some language) shown text = .ok outcome →
        outcome.errors = [] := by
    intro outcome hformat
    have herrors := (Options.faithful_of_format hformat).errors_iff
    rw [Option.getD_some, hsupported, hsize] at herrors
    simpa using herrors
  have hanswers : (settings.options none useTabs).Answers (some language) text ↔
      (settings.options none useTabs).Fits settings.tabSize (some language) text :=
    Options.answers_iff_of_plain hsize htext
  refine ⟨?_, hnone, fun hfits => ?_, fun source size hpos => ofEntries_tabSize root source hpos⟩
  · rw [← hanswers, ← @Options.exists_format_iff_answers _ _ shown]
    exact exists_congr fun outcome => and_iff_left_of_imp (hnone outcome)
  · intro hspaces family hfamily slot hslot
    exact (hanswers.mpr hfits).levels hspaces hsize hfamily hslot

/-- A workspace whose settings have names in mixed case, and a tab size that leaves no room for
spaces. -/
def mixedCase : Tree where
  files := [(.ofString "/w/codebeautifier.toml",
    "[formatting]\ntab_size = 10000000000000000000\n[languages]\nVUE = \" TypeScript\"".toUTF8)]
  directories := [.ofString "/w"]

theorem exists_load_mixedCase :
    ∃ settings, load mixedCase (.ofString "/w") none = .ok settings ∧
      settings.tabSize = 10000000000000000000 ∧ settings.insertSpaces = true ∧
      settings.finalNewline = false ∧
      settings.languages = [(".vue".toList, "typescript".toList)] := by
  have hload : ((load mixedCase (.ofString "/w") none).toOption.map fun settings =>
      ((settings.tabSize, settings.insertSpaces), settings.finalNewline, settings.languages)) =
        some ((10000000000000000000, true), false, [(".vue".toList, "typescript".toList)]) := by
    decide +kernel
  obtain ⟨settings, hsettings, hfields⟩ := Option.map_eq_some_iff.mp hload
  simp only [Prod.mk.injEq, and_assoc] at hfields
  exact ⟨settings, Line.eq_ok_of_toOption hsettings, hfields⟩

/-- A path whose suffix is in mixed case as well. With tabs its text is formatted, with spaces there
is no result. -/
theorem format_loaded_iff_mixedCase :
    ∃ settings, load mixedCase (.ofString "/w") none = .ok settings ∧
      settings.languageFor? (.ofString "src/App.Vue") = some "typescript".toList ∧
      Text.Plain "a=1".toList ∧
      (∃ outcome, (settings.options none (some true)).format (some "typescript".toList) none
        "a=1".toList = .ok outcome ∧ outcome.errors = []) ∧
      (settings.options none (some true)).Fits settings.tabSize (some "typescript".toList)
        "a=1".toList ∧
      ¬∃ outcome, (settings.options none none).format (some "typescript".toList) none
        "a=1".toList = .ok outcome ∧ outcome.errors = [] := by
  obtain ⟨settings, hload, htabSize, hspaces, hnewline, hlanguages⟩ := exists_load_mixedCase
  have hlanguage : settings.languageFor? (.ofString "src/App.Vue") = some "typescript".toList := by
    rw [languageFor?, hlanguages]
    decide +kernel
  have htext : Text.Plain "a=1".toList :=
    Text.plain_of_length (by decide +kernel)
      (Nat.le_trans (by decide +kernel) Literal.addressLimit_le)
  have htabs : ∃ outcome, (settings.options none (some true)).format (some "typescript".toList)
      none "a=1".toList = .ok outcome ∧ outcome.errors = [] := by
    have hview : (Options.format { style := .tabs, tabSize := .int 10000000000000000000 }
        (some "typescript".toList) none "a=1".toList).toOption.map Outcome.errors = some [] := by
      decide +kernel
    obtain ⟨outcome, houtcome, herrors⟩ := Option.map_eq_some_iff.mp hview
    refine ⟨outcome, ?_, herrors⟩
    rw [options, htabSize, hnewline]
    exact Line.eq_ok_of_toOption houtcome
  obtain ⟨hfits, _⟩ := format_loaded_iff hload hlanguage (some true) none htext
  obtain ⟨hno, _⟩ := format_loaded_iff hload hlanguage none none htext
  refine ⟨settings, hload, hlanguage, htext, htabs, hfits.mp htabs, fun hsome => ?_⟩
  have hstyle : (settings.options none none).style = .spaces := by
    rw [options, Option.map_none, Option.getD_none, hspaces]
    rfl
  have hroom := (hno.mp hsome).level hstyle
  rw [htabSize] at hroom
  exact absurd hroom.1 (by decide)

end Settings

end SourceLayout
