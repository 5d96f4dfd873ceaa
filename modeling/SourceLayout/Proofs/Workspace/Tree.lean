import SourceLayout.Text.LineBreak
import SourceLayout.Workspace.Tree

/-!
# Files and their paths

What was written to a file is read from it, and all other files stay. Whoever gets to a file along a
path ends with its name.
-/

namespace SourceLayout

namespace Text

theorem unifyBreaks_cons {c : Char} (hc : c ≠ '\r') (cs : Text) :
    unifyBreaks (c :: cs) = c :: unifyBreaks cs := by
  simp [unifyBreaks, hc]

theorem return_not_mem_unifyBreaks (t : Text) : '\r' ∉ unifyBreaks t := by
  fun_induction unifyBreaks t with
  | case1 => simp
  | case2 cs ih => simpa using ih
  | case3 cs _ ih => simpa using ih
  | case4 c cs _ hc ih => simpa [ih, eq_comm] using hc

theorem unifyBreaks_eq_self {t : Text} (ht : '\r' ∉ t) : unifyBreaks t = t := by
  induction t with
  | nil => rfl
  | cons c cs ih =>
      rw [List.mem_cons, not_or] at ht
      rw [unifyBreaks_cons (Ne.symm ht.1), ih ht.2]

end Text

namespace Path

theorem name_append {parts parts' : List Text} (hne : parts' ≠ []) (root root' : Text)
    (front : List Text) :
    name ⟨root, parts ++ parts'⟩ = name ⟨root', front ++ parts'⟩ := by
  obtain ⟨last, hlast⟩ := Option.ne_none_iff_exists'.mp (mt List.getLast?_eq_none_iff.mp hne)
  rw [name, name, List.getLast?_append, List.getLast?_append, hlast, Option.some_or,
    Option.some_or]

theorem suffix_congr {path path' : Path} (hname : path.name = path'.name) :
    path.suffix = path'.suffix := by
  rw [suffix, suffix, hname]

end Path

/-- The text of a file that can be read, with the line ends it has. -/
def Tree.text? (tree : Tree) (path : Path) : Option Text :=
  ((tree.read? path).bind String.fromUTF8?).map String.toList

namespace Tree

variable {tree : Tree} {path other : Path} {bytes : ByteArray}

/-! ### Names of one file -/

theorem bytes?_congr (hhome : tree.home path = tree.home other) :
    tree.bytes? path = tree.bytes? other := by
  rw [bytes?, bytes?, hhome]

theorem read?_congr (hhome : tree.home path = tree.home other) :
    tree.read? path = tree.read? other := by
  rw [read?, read?, bytes?_congr hhome, isReadable, isReadable, hhome]

theorem text?_congr (hhome : tree.home path = tree.home other) :
    tree.text? path = tree.text? other := by
  rw [text?, text?, read?_congr hhome]

theorem refusal?_congr (hhome : tree.home path = tree.home other) :
    tree.refusal? path = tree.refusal? other := by
  rw [refusal?, refusal?, hhome]

/-! ### Putting bytes into a file -/

theorem fromUTF8?_toUTF8 (t : String) : String.fromUTF8? t.toUTF8 = some t := by
  rw [String.fromUTF8?, String.toUTF8, dif_pos t.isValidUTF8]
  rfl

theorem bytes?_put (hfile : tree.bytes? path ≠ none) (bytes : ByteArray) :
    (tree.put path bytes).bytes? path = some bytes := by
  have hhome : (tree.put path bytes).home path = tree.home path := rfl
  rw [bytes?] at hfile
  rw [bytes?, hhome, put]
  dsimp only
  generalize tree.files = files at hfile
  induction files with
  | nil => exact absurd rfl hfile
  | cons file files ih =>
      by_cases hpath : file.1.parts = tree.home path
      · simp [hpath]
      · rw [List.find?_cons_of_neg (by simpa using hpath)] at hfile
        rw [List.map_cons, if_neg hpath, List.find?_cons_of_neg (by simpa using hpath)]
        exact ih hfile

theorem bytes?_put_of_ne (hne : tree.home other ≠ tree.home path) (bytes : ByteArray) :
    (tree.put path bytes).bytes? other = tree.bytes? other := by
  have hhome : (tree.put path bytes).home other = tree.home other := rfl
  rw [bytes?, bytes?, hhome, put]
  dsimp only
  induction tree.files with
  | nil => rfl
  | cons file files ih =>
      by_cases hother : file.1.parts = tree.home other
      · have hpath : file.1.parts ≠ tree.home path := fun h => hne (hother ▸ h)
        rw [List.map_cons, if_neg hpath, List.find?_cons_of_pos (by simpa using hother),
          List.find?_cons_of_pos (by simpa using hother)]
      · have hkept : (if file.1.parts = tree.home path then (file.1, bytes) else file).1 =
            file.1 := by
          split <;> rfl
        rw [List.map_cons, List.find?_cons_of_neg (by simpa [hkept] using hother),
          List.find?_cons_of_neg (by simpa using hother), ih]

/-! ### Writing files -/

/-- The tree when a file was written, or was to be. -/
def written (tree : Tree) (path : Path) (bytes : ByteArray) : Tree :=
  match tree.write path bytes with
  | .ok tree | .error (_, tree) => tree

/-- Bytes are put into the file that was to be written, or into none. -/
theorem written_cases (tree : Tree) (path : Path) (bytes : ByteArray) :
    (tree.refusal? path = none ∧ tree.written path bytes = tree.put path bytes) ∨
      ∃ refusal, tree.refusal? path = some refusal ∧
        ((refusal.left = none ∧ tree.written path bytes = tree) ∨
          ∃ left, refusal.left = some left ∧ tree.written path bytes = tree.put path left) := by
  rw [written, write]
  cases tree.refusal? path with
  | none => exact .inl ⟨rfl, rfl⟩
  | some refusal =>
      refine .inr ⟨refusal, rfl, ?_⟩
      cases hleft : refusal.left with
      | none => exact .inl ⟨rfl, by simp [hleft]⟩
      | some left => exact .inr ⟨left, rfl, by simp [hleft]⟩

/-- Whatever is said of files by their names stays. -/
structure SameNames (tree after : Tree) : Prop where
  home : ∀ path, after.home path = tree.home path
  refusal? : ∀ path, after.refusal? path = tree.refusal? path
  isReadable : ∀ path, after.isReadable path = tree.isReadable path

theorem SameNames.refl (tree : Tree) : SameNames tree tree :=
  ⟨fun _ => rfl, fun _ => rfl, fun _ => rfl⟩

theorem SameNames.home_eq {after : Tree} (h : SameNames tree after)
    (hhome : tree.home path = tree.home other) : after.home path = after.home other := by
  rw [h.home, h.home, hhome]

theorem SameNames.text?_eq {after : Tree} (h : SameNames tree after)
    (hbytes : after.bytes? path = tree.bytes? path) : after.text? path = tree.text? path := by
  rw [text?, text?, read?, read?, hbytes, h.isReadable]

theorem sameNames_put (tree : Tree) (path : Path) (bytes : ByteArray) :
    SameNames tree (tree.put path bytes) :=
  ⟨fun _ => rfl, fun _ => rfl, fun _ => rfl⟩

theorem sameNames_written (tree : Tree) (path : Path) (bytes : ByteArray) :
    SameNames tree (tree.written path bytes) := by
  rcases written_cases tree path bytes with ⟨_, h⟩ | ⟨_, _, ⟨_, h⟩ | ⟨left, _, h⟩⟩ <;> rw [h]
  · exact sameNames_put tree path bytes
  · exact .refl tree
  · exact sameNames_put tree path left

theorem bytes?_written_of_ne (hne : tree.home other ≠ tree.home path) (bytes : ByteArray) :
    (tree.written path bytes).bytes? other = tree.bytes? other := by
  rcases written_cases tree path bytes with ⟨_, h⟩ | ⟨_, _, ⟨_, h⟩ | ⟨left, _, h⟩⟩ <;> rw [h]
  · exact bytes?_put_of_ne hne bytes
  · exact bytes?_put_of_ne hne left

theorem text?_written_of_ne (hne : tree.home other ≠ tree.home path) (bytes : ByteArray) :
    (tree.written path bytes).text? other = tree.text? other :=
  (sameNames_written tree path bytes).text?_eq (bytes?_written_of_ne hne bytes)

theorem exists_bytes?_of_text? {before : Text} (hbefore : tree.text? path = some before) :
    ∃ bytes, tree.bytes? path = some bytes ∧ tree.isReadable path = true := by
  obtain ⟨content, hcontent, _⟩ := Option.map_eq_some_iff.mp hbefore
  obtain ⟨bytes, hread, _⟩ := Option.bind_eq_some_iff.mp hcontent
  exact ⟨bytes, Option.filter_eq_some_iff.mp hread⟩

/-- What was written to a file is read from it. -/
theorem text?_written {before : Text} (hbefore : tree.text? path = some before)
    (hrefusal : tree.refusal? path = none) (t : Text) :
    (tree.written path (String.ofList t).toUTF8).text? path = some t := by
  obtain ⟨bytes, hfile, hreadable⟩ := exists_bytes?_of_text? hbefore
  rcases written_cases tree path (String.ofList t).toUTF8 with ⟨_, h⟩ | ⟨refusal, hsome, _⟩
  · rw [h, text?, read?, bytes?_put (by rw [hfile]; exact Option.some_ne_none bytes),
      (sameNames_put tree path _).isReadable, Option.filter_some, if_pos hreadable, Option.bind_some,
      fromUTF8?_toUTF8, Option.map_some, String.toList_ofList]
  · rw [hrefusal] at hsome
    cases hsome

/-! ### Going along a path -/

/-- Where a node is. -/
def Node.place : Node → Path
  | .file path _ | .sealed path | .directory path => path

theorem place_of_nodeAt? {node : Node} (hnode : tree.nodeAt? path = some node) :
    node.place = path := by
  rw [nodeAt?] at hnode
  split at hnode
  next =>
      cases hnode
      split <;> rfl
  next =>
      split at hnode
      next => cases hnode; rfl
      next => cases hnode

/-- Whoever gets to a file along components ends with its name, unless the last of them are double
dots. -/
theorem name_of_walk {start : Path} {parts : List Text} {node : Node}
    (hwalk : tree.walk (.directory start) parts = .found node)
    (hfile : ∀ place, node ≠ .directory place) :
    parts.getLast? = some ['.', '.'] ∨ parts.getLast? = node.place.parts.getLast? := by
  induction parts generalizing start with
  | nil =>
      cases hwalk
      exact absurd rfl (hfile start)
  | cons part parts ih =>
      rw [walk] at hwalk
      split at hwalk
      next => cases hwalk
      next =>
          dsimp only at hwalk
          split at hwalk
          next => cases hwalk
          next next hnext =>
              cases parts with
              | nil =>
                  rw [walk] at hwalk
                  cases hwalk
                  have hplace := place_of_nodeAt? hnext
                  by_cases hdots : part = ['.', '.']
                  · exact .inl (by rw [hdots]; rfl)
                  · rw [if_neg hdots] at hplace
                    exact .inr (by simp [hplace, Path.child])
              | cons second others =>
                  rw [List.getLast?_cons_cons]
                  cases next with
                  | file | «sealed» => cases hwalk
                  | directory path => exact ih hwalk

theorem name_of_find {current path : Path} {node : Node}
    (hfind : tree.find current path = .found node) (hfile : ∀ place, node ≠ .directory place) :
    path.name = ['.', '.'] ∨ path.name = node.place.name := by
  rw [find] at hfind
  split at hfind
  next => cases hfind
  next =>
      split at hfind
      next => cases hfind
      next =>
          rw [Path.name, Path.name]
          rcases name_of_walk hfind hfile with h | h <;> rw [h]
          · exact .inl rfl
          · exact .inr rfl

/-- The components of a file below a directory. -/
theorem ne_nil_of_mem_filesBelow {parts : List Text} (hfile : parts ∈ tree.filesBelow path) :
    parts ≠ [] := by
  rw [filesBelow, List.mem_mergeSort, List.mem_filterMap] at hfile
  obtain ⟨name, _, hbelow⟩ := hfile
  split at hbelow
  next habove =>
      cases hbelow
      rw [Bool.and_eq_true, Bool.and_eq_true, isAbove, List.isPrefixOf_iff_prefix,
        bne_iff_ne] at habove
      obtain ⟨⟨⟨rest, hrest⟩, hne⟩, _⟩ := habove
      rw [← hrest, List.drop_left]
      rintro rfl
      exact hne (by rw [← hrest, List.append_nil])
  next => cases hbelow

end Tree

end SourceLayout
