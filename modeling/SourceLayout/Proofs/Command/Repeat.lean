import SourceLayout.Proofs.Command.Effect

/-!
# Files that are named more than once

The files of all arguments are put one after another, and nothing is left out. A file that several
arguments lead to is read, formatted and written for each of them. So its text is formatted as often
as the file has its turn, each time under the language that it was collected with, and what comes
out is the formatted text of what was there before if formatting it again changes nothing.
-/

namespace SourceLayout.Command

namespace FormatRun

/-- Whether two items are one file, by whatever names. -/
def isSame (tree : Tree) (item other : Item) : Bool :=
  tree.home other.path == tree.home item.path

/-- How often a file is among some. -/
def times (tree : Tree) (items : List Item) (item : Item) : Nat :=
  items.countP (isSame tree item)

theorem isSame_eq_true_iff {tree : Tree} {item other : Item} :
    isSame tree item other = true ↔ tree.home other.path = tree.home item.path :=
  beq_iff_eq

/-- A step that is stable once it is taken, or taken once, leads to the same text as one step. -/
theorem iterate_eq_of_stable {step : Text → Text} {count : Nat} (hpos : 0 < count) {text : Text}
    (hstable : count = 1 ∨ step (step text) = step text) : step^[count] text = step text := by
  obtain ⟨count, rfl⟩ := Nat.exists_eq_succ_of_ne_zero (Nat.ne_of_gt hpos)
  rw [Nat.succ_eq_add_one, Function.iterate_succ_apply]
  rcases hstable with honce | hfixed
  · obtain rfl : count = 0 := by omega
    rfl
  · exact Function.iterate_fixed hfixed count

variable [Machine] {run : FormatRun} {tree : Tree} {item : Item}

/-- Every turn of a file that can be written formats its text once more. -/
theorem text?_foldl_rewrite (hwrites : run.writes = true)
    (hrefusal : tree.refusal? item.path = none) (items : List Item) :
    item.text? (items.foldl run.rewrite tree) = (item.text? tree).map fun text =>
      (items.filter (isSame tree item)).foldl
        (fun text other => run.formatted other.language text) text := by
  induction items generalizing tree with
  | nil => simp
  | cons other items ih =>
      have hnames := run.sameNames_rewrite tree other
      have hsame : isSame (run.rewrite tree other) item = isSame tree item := by
        funext later
        rw [isSame, isSame, hnames.home, hnames.home]
      rw [List.foldl_cons, ih (by rw [hnames.refusal?, hrefusal]), hsame, List.filter_cons]
      by_cases hhome : tree.home other.path = tree.home item.path
      · have hother : tree.refusal? other.path = none := by
          rw [Tree.refusal?_congr hhome, hrefusal]
        rw [if_pos (isSame_eq_true_iff.mpr hhome),
          Item.text?_congr (hnames.home_eq hhome.symm), text?_rewrite_self hwrites hother,
          Item.text?_congr hhome, Option.map_map]
        rfl
      · rw [if_neg (mt isSame_eq_true_iff.mp hhome), text?_rewrite_of_ne (Ne.symm hhome)]

theorem bytes?_foldl_rewrite {refusal : Refusal} (hrefusal : tree.refusal? item.path = some refusal)
    (items : List Item) :
    (items.foldl run.rewrite tree).bytes? item.path = tree.bytes? item.path ∨
      ∃ left, refusal.left = some left ∧
        (items.foldl run.rewrite tree).bytes? item.path = some left := by
  induction items generalizing tree with
  | nil => exact .inl rfl
  | cons other items ih =>
      have hnames := run.sameNames_rewrite tree other
      rw [List.foldl_cons]
      rcases ih (by rw [hnames.refusal?, hrefusal]) with h | h
      · rw [h]
        exact bytes?_rewrite_of_refusal hrefusal other
      · exact .inr h

/-- Under one language the turns of a file repeat one step. -/
theorem foldl_formatted {language : Text} {items : List Item}
    (hlanguage : ∀ other ∈ items, other.language = language) (text : Text) :
    items.foldl (fun text other => run.formatted other.language text) text =
      (run.formatted language)^[items.length] text := by
  induction items generalizing text with
  | nil => rfl
  | cons other items ih =>
      obtain ⟨hother, hothers⟩ := List.forall_mem_cons.mp hlanguage
      rw [List.foldl_cons, ih hothers, hother, List.length_cons, Function.iterate_succ_apply]

end FormatRun

/-- **A file is formatted as often as it is named.** After a run that writes, every file that was
collected, could be read and can be written holds the text it had before, formatted once for each
time it had its turn, through whichever arguments and names; so it holds the formatted text if it had
one turn or if that text is stable. Every file that was collected has its turn unless the run ends
early. A file that cannot be written is left alone, but for what an attempt to write it leaves. -/
theorem formats_as_often_as_named [Machine] (world : World) (arguments : List Text)
    (accepted : Accepted world arguments) (hpaths : accepted.request.stdin = false)
    (hcheck : accepted.request.check = false) (hdiff : accepted.request.diff = false)
    (found : Collected) (hcollect : accepted.collected = .ok found) :
    let after := (run world arguments).progress.tree
    let reached := accepted.formatRun.reached world.tree found.items
    reached <+: found.items ∧
    (accepted.formatRun.trouble? world.tree found.items = none → reached = found.items) ∧
    (∀ item ∈ found.items, ∀ other ∈ found.items, item.path.parts = other.path.parts →
      item.language = other.language) ∧
    ∀ item ∈ found.items,
      (world.tree.refusal? item.path = none → ∀ text, item.text? world.tree = some text →
        item.text? after = some ((reached.filter (FormatRun.isSame world.tree item)).foldl
          (fun text other => accepted.formatRun.formatted other.language text) text) ∧
        ((∀ other ∈ found.items, FormatRun.isSame world.tree item other = true →
            other.language = item.language) →
          let formatted := accepted.formatRun.formatted item.language
          let times := FormatRun.times world.tree reached item
          item.text? after = some (formatted^[times] text) ∧
            (0 < times → times = 1 ∨ formatted (formatted text) = formatted text →
              item.text? after = some (formatted text)))) ∧
      ∀ refusal, world.tree.refusal? item.path = some refusal →
        after.bytes? item.path = world.tree.bytes? item.path ∨
          ∃ left, refusal.left = some left ∧ after.bytes? item.path = some left := by
  dsimp only
  have hwrites : accepted.formatRun.writes = true := by
    rw [FormatRun.writes, Accepted.formatRun, hcheck, hdiff]
    rfl
  have hfront := accepted.formatRun.reached_prefix world.tree found.items
  rw [accepted.tree_run hpaths hcollect]
  refine ⟨hfront, FormatRun.reached_of_trouble?, fun item hitem other hother =>
    accepted.language_eq hcollect hitem hother, fun item hitem => ⟨fun hrefusal text htext => ?_,
      fun refusal hrefusal => FormatRun.bytes?_foldl_rewrite hrefusal _⟩⟩
  have hafter := FormatRun.text?_foldl_rewrite hwrites hrefusal
    (accepted.formatRun.reached world.tree found.items)
  rw [htext, Option.map_some] at hafter
  refine ⟨hafter, fun hlanguage => ?_⟩
  rw [@FormatRun.foldl_formatted _ _ item.language _ ?_, ← List.countP_eq_length_filter,
    ← FormatRun.times] at hafter
  · exact ⟨hafter, fun hpos hstable => hafter.trans
      (congrArg some (FormatRun.iterate_eq_of_stable hpos hstable))⟩
  · intro other hother
    obtain ⟨hreached, hsame⟩ := List.mem_filter.mp hother
    exact hlanguage other (hfront.subset hreached) hsame

/-- A file that every run moves: named twice it is moved twice, and named once it is moved once. Named
after a file that cannot be written it is not moved at all. -/
theorem formats_as_often_as_named_twice :
    (∃ accepted : Accepted World.sample (Text.chunks "format a.js a.js".toList),
      accepted.request.stdin = false ∧ accepted.request.check = false ∧
      accepted.request.diff = false ∧
      accepted.collected = .ok ⟨[.sample "a.js", .sample "a.js"], []⟩ ∧
      (Item.sample "a.js").text? World.sample.tree = some "    a".toList ∧
      (Item.sample "a.js").text?
          (run World.sample (Text.chunks "format a.js a.js".toList)).progress.tree =
        some "                a".toList) ∧
    (∃ accepted : Accepted World.sample (Text.chunks "format a.js".toList),
      accepted.collected = .ok ⟨[.sample "a.js"], []⟩ ∧
      (Item.sample "a.js").text?
          (run World.sample (Text.chunks "format a.js".toList)).progress.tree =
        some "        a".toList) ∧
    ∃ accepted : Accepted World.sample (Text.chunks "format r.js a.js".toList),
      accepted.collected = .ok ⟨[.sample "r.js", .sample "a.js"], []⟩ ∧
      (Item.sample "a.js").text?
          (run World.sample (Text.chunks "format r.js a.js".toList)).progress.tree =
        some "    a".toList := by
  have htext : (Item.sample "a.js").text? World.sample.tree = some "    a".toList := by
    decide +kernel
  have hrefusal : World.sample.tree.refusal? (Item.sample "a.js").path = none :=
    Option.isNone_iff_eq_none.mp (by decide +kernel)
  refine ⟨?_, ?_, ?_⟩
  · let accepted : Accepted World.sample (Text.chunks "format a.js a.js".toList) :=
      .sample _ { paths := ["a.js".toList, "a.js".toList] } rfl rfl
    obtain ⟨_, _, _, hfiles⟩ := formats_as_often_as_named World.sample _ accepted rfl rfl rfl
      ⟨[.sample "a.js", .sample "a.js"], []⟩ rfl
    obtain ⟨hafter, _⟩ := (hfiles (.sample "a.js") List.mem_cons_self).1 hrefusal _ htext
    refine ⟨accepted, rfl, rfl, rfl, rfl, htext, hafter.trans ?_⟩
    decide +kernel
  · let accepted : Accepted World.sample (Text.chunks "format a.js".toList) :=
      .sample _ { paths := ["a.js".toList] } rfl rfl
    obtain ⟨_, _, _, hfiles⟩ := formats_as_often_as_named World.sample _ accepted rfl rfl rfl
      ⟨[.sample "a.js"], []⟩ rfl
    obtain ⟨_, hlanguage⟩ := (hfiles (.sample "a.js") List.mem_cons_self).1 hrefusal _ htext
    obtain ⟨_, honce⟩ := hlanguage (List.forall_mem_singleton.mpr fun _ => rfl)
    refine ⟨accepted, rfl, (honce (by decide +kernel) (.inl (by decide +kernel))).trans ?_⟩
    decide +kernel
  · let accepted : Accepted World.sample (Text.chunks "format r.js a.js".toList) :=
      .sample _ { paths := ["r.js".toList, "a.js".toList] } rfl rfl
    obtain ⟨_, _, _, hfiles⟩ := formats_as_often_as_named World.sample _ accepted rfl rfl rfl
      ⟨[.sample "r.js", .sample "a.js"], []⟩ rfl
    obtain ⟨hafter, _⟩ := (hfiles (.sample "a.js") (by simp)).1 hrefusal _ htext
    refine ⟨accepted, rfl, hafter.trans ?_⟩
    decide +kernel

end SourceLayout.Command
