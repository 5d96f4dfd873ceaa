import SourceLayout.Proofs.Depth
import SourceLayout.Proofs.Layout.Structure
import SourceLayout.Proofs.Trimmed

/-!
# Blocks line up

The level of a line is read off its tidied spelling, and the depth moves on by the braces of the
line as it came. Where a line has at most one opening brace, at its end, and at most one closing
brace, at its start, the level is the height right after the closing brace. The line that a closing
brace belongs to is the last one before it whose level is below the depth there.
-/

namespace SourceLayout.Layout

open Indent (braces height NeverBelow depthAfter levelAt)
open Literal (bareCode markOpen numberLimit)
open Text (tokens)

variable {family : Family} {language : Option Text} {unit : IndentUnit}

/-- Lines that are neither blank nor part of a block comment nor for the preprocessor. -/
def isCode (family : Family) (line : Text) : Bool :=
  !line.isEmptyLine && !(family == .cFamily && Indent.isDirective line.trim) &&
    !Comment.isBlockLine line.trim

/-- The braces of a line that count. -/
def lineBraces (family : Family) (line : Text) : Text :=
  if isCode family line then braces (bareCode family line.trim) else []

def bracesOf (family : Family) (lines : List Text) : Text :=
  lines.flatMap (lineBraces family)

/-- At most one opening brace and before it at most one closing brace, which the line starts with. -/
def Shaped (family : Family) (line : Text) : Prop :=
  braces (bareCode family line.trim) ∈ [[], ['{']] ∨
    braces (bareCode family line.trim) ∈ [['}'], ['}', '{']] ∧ line.trim.startsWith ['}'] = true

instance (family : Family) (line : Text) : Decidable (Shaped family line) :=
  inferInstanceAs (Decidable (_ ∨ _))

/-- Braces that all belong to each other. -/
def Balanced (t : Text) : Prop :=
  height t = 0 ∧ NeverBelow 0 t

instance (t : Text) : Decidable (Balanced t) :=
  inferInstanceAs (Decidable (_ ∧ _))

/-- The last brace of one line and the first of a later one belong to each other. -/
structure Encloses (family : Family) (lines : List Text) (opener closer : Nat) : Prop where
  lt : opener < closer
  opens : ∃ line, lines[opener]? = some line ∧ ['{'] <:+ lineBraces family line
  closes : ∃ line, lines[closer]? = some line ∧ ['}'] <+: lineBraces family line
  balanced : Balanced (bracesOf family ((lines.take closer).drop (opener + 1)))

/-- A line has been written tidied, with so many units before it. -/
def IsAt (family : Family) (language : Option Text) (unit : IndentUnit) (lines out : List Text)
    (place level : Nat) : Prop :=
  ∃ line tidied, lines[place]? = some line ∧ Line.tidy family language line = .ok tidied ∧
    out[place]? = some (unit.levels level ++ tidied)

/-! ### Lines one by one -/

theorem isCode_iff {line : Text} :
    isCode family line = true ↔ line.trim.isEmpty = false ∧
      ¬(family = .cFamily ∧ Indent.isDirective line.trim = true) ∧
      Comment.isBlockLine line.trim = false := by
  have hblank : line.isEmptyLine = line.trim.isEmpty := by
    rw [Bool.eq_iff_iff, List.isEmpty_iff, Text.trim_eq_nil_iff]
  rw [isCode, hblank]
  simp [and_assoc, imp_iff_not_or]

theorem depthPast_eq (family : Family) (depth : Nat) (line : Text) :
    depthPast family depth line = (lineBraces family line).foldl depthAfter depth := by
  rw [depthPast, lineBraces, Indent.advance, Indent.foldl_depthAfter_braces]
  by_cases hcode : isCode family line = true
  · obtain ⟨hempty, hdirective, hblock⟩ := isCode_iff.mp hcode
    simp [hcode, hempty, hdirective, hblock]
  · rw [if_neg hcode, List.foldl_nil]
    split
    next => rfl
    next hempty =>
        split
        next => rfl
        next hdirective =>
            split
            next => rfl
            next hblock =>
                exact absurd (isCode_iff.mpr ⟨by simpa using hempty, hdirective,
                  by simpa using hblock⟩) hcode

/-- Every line is laid out at the depth that the braces before it lead to. -/
theorem layAt_of_byDepthFrom {depth : Nat} {lines out : List Text}
    (hindent : byDepthFrom family language unit depth lines = .ok out) :
    out.length = lines.length ∧ ∀ place line, lines[place]? = some line →
      ∃ laid, out[place]? = some laid ∧
        layAt family language unit
          ((bracesOf family (lines.take place)).foldl depthAfter depth) line = .ok laid := by
  induction lines generalizing depth out with
  | nil =>
      cases hindent
      exact ⟨rfl, by simp⟩
  | cons first lines ih =>
      obtain ⟨laid, rest, hlaid, hrest, rfl⟩ := byDepthFrom_cons_eq_ok.mp hindent
      obtain ⟨hlength, hlines⟩ := ih hrest
      refine ⟨by rw [List.length_cons, List.length_cons, hlength], ?_⟩
      intro place line hline
      cases place with
      | zero =>
          obtain rfl : first = line := Option.some.inj hline
          exact ⟨laid, rfl, hlaid⟩
      | succ place =>
          obtain ⟨later, hlater, hlay⟩ := hlines place line hline
          refine ⟨later, hlater, ?_⟩
          rwa [depthPast_eq, ← List.foldl_append] at hlay

/-- No literal starts with a closing brace. -/
theorem find_close {find : Literal.Finder} (hfind : find ∈ Literal.finders family language)
    (cs : Text) : find [] ('}' :: cs) = 0 := by
  have hquoted : Literal.quoted family [] ('}' :: cs) = 0 :=
    Literal.quoted_eq_zero_of_none (by cases family <;> decide)
  have hresource : Literal.resource [] ('}' :: cs) = 0 := by
    unfold Literal.resource
    split
    next hletters =>
        obtain ⟨rfl, _⟩ := List.cons.inj hletters
        exact if_neg (by simp)
    next => rfl
  have hexponent : Literal.exponent [] ('}' :: cs) = 0 := by
    simp [Literal.exponent, show isDecimal '}' = false by decide +kernel]
  simp only [Literal.finders, List.mem_cons, List.mem_append] at hfind
  rcases hfind with rfl | ((hfind | hfind) | hfind) | hfind
  · exact hquoted
  · split at hfind <;> simp_all
  · split at hfind <;> simp_all
  · split at hfind <;> simp_all [Literal.typeList]
  · split at hfind <;> simp_all [Literal.shift]

theorem head?_split_code {line : Text} (hhead : line.head? = some '}') :
    (Comment.split family line).code.head? = some '}' := by
  rw [Comment.split]
  split
  next => exact hhead
  next place hplace =>
      obtain ⟨cs, rfl⟩ := List.head?_eq_some_iff.mp hhead
      have hopens := Comment.opensComment_of_startFrom hplace
      cases place with
      | zero => cases family <;> simp [Family.opensComment] at hopens
      | succ place =>
          obtain ⟨gap, hgap, hcode⟩ := Text.trimRight_append (('}' :: cs).take (place + 1))
          cases htrim : Text.trimRight (('}' :: cs).take (place + 1)) with
          | nil =>
              rw [htrim, List.nil_append, List.take_succ_cons] at hcode
              rw [hcode] at hgap
              exact absurd hgap (by simp [show isBlank '}' = false by decide])
          | cons d ds =>
              rw [htrim, List.cons_append, List.take_succ_cons] at hcode
              rw [(List.cons.inj hcode).1, List.head?_cons]

theorem head?_run {find : Literal.Finder} {c : Char} (hfind : ∀ cs, find [] (c :: cs) = 0)
    {masked : Literal.Masked} (hhead : masked.text.head? = some c) :
    (find.run masked).text.head? = some c := by
  obtain ⟨cs, htext⟩ := List.head?_eq_some_iff.mp hhead
  rw [Literal.Finder.run, htext, Literal.Finder.maskFrom_cons (hfind cs)]
  rfl

/-- Masking leaves a closing brace that a line starts with. -/
theorem head?_bareCode {line : Text} (hhead : line.head? = some '}') :
    (bareCode family line).head? = some '}' :=
  Literal.mask_induct (motive := fun masked => masked.text.head? = some '}')
    (fun _ hfind _ hmasked => head?_run (find_close hfind) hmasked) (head?_split_code hhead)

theorem head?_lineBraces {line : Text} (hcode : isCode family line = true)
    (hstart : line.trim.startsWith ['}'] = true) : (lineBraces family line).head? = some '}' := by
  have hhead : line.trim.head? = some '}' := by
    obtain ⟨rest, hrest⟩ := List.isPrefixOf_iff_prefix.mp hstart
    rw [← hrest]
    rfl
  obtain ⟨cs, hbare⟩ := List.head?_eq_some_iff.mp (@head?_bareCode family _ hhead)
  rw [lineBraces, if_pos hcode, hbare]
  rfl

/-! ### Heights before the lines -/

/-- The height that the braces before a line reach. -/
def heightBefore (family : Family) (lines : List Text) (place : Nat) : Int :=
  height (bracesOf family (lines.take place))

variable {lines : List Text} {place : Nat} {line : Text}

theorem bracesOf_append (front back : List Text) :
    bracesOf family (front ++ back) = bracesOf family front ++ bracesOf family back :=
  List.flatMap_append

theorem heightBefore_succ (hline : lines[place]? = some line) :
    heightBefore family lines (place + 1) =
      heightBefore family lines place + height (lineBraces family line) := by
  rw [heightBefore, List.take_add_one, hline, bracesOf_append, Indent.height_append]
  simp [heightBefore, bracesOf]

theorem neverBelow_line (hbelow : NeverBelow 0 (bracesOf family lines))
    (hline : lines[place]? = some line) :
    NeverBelow (heightBefore family lines place) (lineBraces family line) := by
  have hown := ((Indent.neverBelow_flatMap _ lines).mp hbelow).2 place line hline
  rwa [Int.zero_add] at hown

/-- The braces of the lines from one place to another are told by the heights before the lines. -/
theorem balanced_between {first last : Nat} (hle : first ≤ last) :
    Balanced (bracesOf family ((lines.take last).drop first)) ↔
      heightBefore family lines last = heightBefore family lines first ∧
      ∀ place line, first ≤ place → place < last → lines[place]? = some line →
        NeverBelow (heightBefore family lines place - heightBefore family lines first)
          (lineBraces family line) := by
  have hheight : ∀ place, first ≤ place → height (bracesOf family ((lines.take place).drop first)) =
      heightBefore family lines place - heightBefore family lines first := by
    intro place hplace
    have hsplit := congrArg (fun ls => height (bracesOf family ls))
      (List.take_append_drop first (lines.take place))
    simp only [bracesOf_append, Indent.height_append, List.take_take, Nat.min_eq_left hplace] at hsplit
    rw [heightBefore, heightBefore]
    omega
  have hfront : ∀ count, first + count ≤ last →
      ((lines.take last).drop first).take count = (lines.take (first + count)).drop first := by
    intro count hcount
    rw [List.take_drop, List.take_take, Nat.min_eq_left hcount]
  rw [Balanced, hheight last hle, bracesOf, Indent.neverBelow_flatMap]
  refine and_congr (by omega) ?_
  constructor
  · rintro ⟨_, hlines⟩ place line hfirst hlast hline
    obtain ⟨count, rfl⟩ := Nat.exists_eq_add_of_le hfirst
    have hown := hlines count line (by
      rw [List.getElem?_drop, List.getElem?_take_of_lt hlast, hline])
    rwa [hfront count (by omega), Int.zero_add, ← bracesOf, hheight _ hfirst] at hown
  · intro hlines
    refine ⟨Int.le_refl 0, fun count line hline => ?_⟩
    have hcount : first + count < last := by
      rw [List.getElem?_drop, List.getElem?_take] at hline
      exact (Option.ite_none_right_eq_some.mp hline).1
    rw [List.getElem?_drop, List.getElem?_take_of_lt hcount] at hline
    have hown := hlines (first + count) line (by omega) hcount hline
    rwa [hfront count (by omega), Int.zero_add, ← bracesOf, hheight _ (by omega)]

/-! ### Lines of the right shape -/

/-- The closing brace that a line starts with, if it does. -/
def closings (family : Family) (line : Text) : Nat :=
  if isCode family line ∧ line.trim.startsWith ['}'] then 1 else 0

theorem lineBraces_eq (hshape : isCode family line = true → Shaped family line) :
    ∃ openings ≤ 1, lineBraces family line =
      List.replicate (closings family line) '}' ++ List.replicate openings '{' := by
  cases hcode : isCode family line with
  | false => exact ⟨0, by omega, by simp [lineBraces, closings, hcode]⟩
  | true =>
      have hbraces : lineBraces family line = braces (bareCode family line.trim) := if_pos hcode
      have hshaped := hshape hcode
      simp only [Shaped, ← hbraces, List.mem_cons, List.not_mem_nil, or_false] at hshaped
      cases hstart : line.trim.startsWith ['}'] with
      | false =>
          rw [closings, if_neg (by simp [hstart])]
          simp only [hstart, Bool.false_eq_true, and_false, or_false] at hshaped
          rcases hshaped with hnone | hopen
          · exact ⟨0, by omega, hnone⟩
          · exact ⟨1, by omega, hopen⟩
      | true =>
          have hhead := head?_lineBraces hcode hstart
          rw [closings, if_pos ⟨hcode, hstart⟩]
          rcases hshaped with (hnone | hopen) | ⟨hclose | hboth, _⟩
          · simp [hnone] at hhead
          · simp [hopen] at hhead
          · exact ⟨0, by omega, hclose⟩
          · exact ⟨1, by omega, hboth⟩

/-! ### Levels -/

/-- The last place below a bound. -/
theorem exists_last_below {f : Nat → Int} {bound : Int} (hfirst : f 0 < bound) (count : Nat) :
    ∃ place ≤ count, f place < bound ∧
      ∀ later, place < later → later ≤ count → bound ≤ f later := by
  induction count with
  | zero => exact ⟨0, Nat.le_refl 0, hfirst, by omega⟩
  | succ count ih =>
      by_cases hbelow : f (count + 1) < bound
      · exact ⟨count + 1, Nat.le_refl _, hbelow, by omega⟩
      · obtain ⟨place, hle, hplace, hlater⟩ := ih
        refine ⟨place, by omega, hplace, fun later hlt hcount => ?_⟩
        rcases Nat.lt_or_eq_of_le hcount with hcount | rfl
        · exact hlater later hlt (by omega)
        · omega

/-- The height after the closing brace that a line starts with. -/
def lowest (family : Family) (lines : List Text) (place : Nat) : Int :=
  heightBefore family lines place - (lines[place]?.elim 0 (closings family) : Nat)

theorem lowest_eq (hline : lines[place]? = some line) :
    lowest family lines place = heightBefore family lines place - closings family line := by
  rw [lowest, hline]
  rfl

variable (hshape : ∀ line ∈ lines, isCode family line = true → Shaped family line)
variable (hbelow : NeverBelow 0 (bracesOf family lines))

include hshape

/-- What one line does to the height: down by the brace it starts with, up by the one it ends
with. -/
theorem exists_openings (hline : lines[place]? = some line) :
    ∃ openings ≤ 1,
      lineBraces family line =
        List.replicate (closings family line) '}' ++ List.replicate openings '{' ∧
      heightBefore family lines (place + 1) = lowest family lines place + openings := by
  obtain ⟨openings, hle, hbraces⟩ := lineBraces_eq (hshape line (List.mem_of_getElem? hline))
  refine ⟨openings, hle, hbraces, ?_⟩
  rw [heightBefore_succ hline, lowest_eq hline, hbraces, Indent.height_append,
    Indent.height_replicate_close, Indent.height_replicate_open]
  omega

theorem neverBelow_lineBraces_iff {start : Int} (hline : lines[place]? = some line) :
    NeverBelow start (lineBraces family line) ↔ (closings family line : Int) ≤ start := by
  obtain ⟨openings, _, hbraces, _⟩ := exists_openings hshape hline
  rw [hbraces, Indent.neverBelow_replicate]

include hbelow

theorem lowest_nonneg (hline : lines[place]? = some line) : 0 ≤ lowest family lines place := by
  have hle := (neverBelow_lineBraces_iff hshape hline).mp (neverBelow_line hbelow hline)
  rw [lowest_eq hline]
  omega

/-- Every closing brace at the start of a line belongs to an opening one at the end of a line: the
last line before that gets below the depth at the closing brace. -/
theorem exists_encloses {closer : Nat} (hline : lines[closer]? = some line)
    (hcloses : closings family line = 1) : ∃ opener, Encloses family lines opener closer := by
  have hclose := (neverBelow_lineBraces_iff hshape hline).mp (neverBelow_line hbelow hline)
  rw [hcloses] at hclose
  have hzero : heightBefore family lines 0 = 0 := rfl
  have hlength : closer < lines.length := (List.getElem?_eq_some_iff.mp hline).1
  have hget : ∀ place ≤ closer, ∃ line, lines[place]? = some line := fun place hle =>
    ⟨lines[place], List.getElem?_eq_getElem (by omega)⟩
  cases closer with
  | zero => omega
  | succ last =>
      have hfirst : lowest family lines 0 < heightBefore family lines (last + 1) := by
        rw [lowest]
        omega
      obtain ⟨opener, hle, hopener, hlater⟩ := exists_last_below hfirst last
      obtain ⟨openLine, hopenLine⟩ := hget opener (by omega)
      obtain ⟨openings, hopenings, hbraces, hnext⟩ := exists_openings hshape hopenLine
      have hreached : heightBefore family lines (last + 1) ≤
          heightBefore family lines (opener + 1) := by
        rcases Nat.lt_or_eq_of_le hle with hlt | rfl
        · have hlow := hlater (opener + 1) (by omega) (by omega)
          rw [lowest] at hlow
          omega
        · exact Int.le_refl _
      obtain rfl : openings = 1 := by omega
      refine ⟨opener, by omega, ⟨openLine, hopenLine, ?_⟩, ⟨line, hline, ?_⟩, ?_⟩
      · rw [hbraces]
        exact List.suffix_append _ _
      · obtain ⟨_, _, hown, _⟩ := exists_openings hshape hline
        rw [hown, hcloses]
        exact List.prefix_append _ _
      · refine (balanced_between (by omega)).mpr ⟨by omega, ?_⟩
        intro place between hfrom hto hbetween
        have hlow := hlater place (by omega) (by omega)
        rw [lowest_eq hbetween] at hlow
        rw [neverBelow_lineBraces_iff hshape hbetween]
        omega

omit hbelow

/-- The lines of a block: the one that opens it is as low as the one that closes it, and those
between are higher. -/
theorem Encloses.lowest_eq {opener closer : Nat} (h : Encloses family lines opener closer)
    (hline : lines[closer]? = some line) (hcloses : closings family line = 1) :
    lowest family lines opener = lowest family lines closer ∧
      ∀ between line, opener < between → between < closer → lines[between]? = some line →
        lowest family lines opener < lowest family lines between := by
  obtain ⟨openLine, hopenLine, hopens⟩ := h.opens
  obtain ⟨openings, hle, hbraces, hnext⟩ := exists_openings hshape hopenLine
  have hone : openings = 1 := by
    cases openings with
    | zero =>
        rw [hbraces] at hopens
        have hmem := hopens.subset (List.mem_singleton_self '{')
        simp [List.mem_replicate] at hmem
    | succ openings => omega
  have hnextLe : opener + 1 ≤ closer := h.lt
  obtain ⟨hheight, hlines⟩ := (balanced_between hnextLe).mp h.balanced
  have hcloser := @Layout.lowest_eq family lines closer _ hline
  refine ⟨by omega, fun between line hfrom hto hbetween => ?_⟩
  have hlow := hlines between line hfrom hto hbetween
  rw [neverBelow_lineBraces_iff hshape hbetween] at hlow
  rw [Layout.lowest_eq hbetween]
  omega

omit hshape

/-- A tidied line starts with the sign that the line starts with. -/
theorem tidy_startsWith {tidied : Text} (hplain : markOpen ∉ line)
    (htidy : Line.tidy family language line = .ok tidied) (c : Char) :
    tidied.startsWith [c] = line.trim.startsWith [c] := by
  have htokens := Line.tokens_tidy hplain htidy
  rw [← Text.startsWith_solid (Line.trimmed_tidy htidy).head,
    ← Text.startsWith_solid (Text.trimmed_trim line).head, ← Text.flatten_tokens .marked,
    ← Text.flatten_tokens .marked, htokens, Text.tokens_trim]

include hshape hbelow

/-- A line of code is written at the height that it starts with or falls to. -/
theorem isAt_lowest {out : List Text} (hcode : isCode family line = true)
    (hplain : ∀ line ∈ lines, markOpen ∉ line)
    (hstar : ∀ tidied, Line.tidy family language line = .ok tidied →
      tidied.startsWith ['*'] = false)
    (hindent : byDepth family language unit lines = .ok out)
    (hline : lines[place]? = some line) :
    IsAt family language unit lines out place (lowest family lines place).toNat := by
  obtain ⟨laid, hlaid, hlay⟩ := (layAt_of_byDepthFrom hindent).2 place line hline
  obtain ⟨hempty, hdirective, _⟩ := isCode_iff.mp hcode
  rw [layAt, if_neg (by simp [hempty]), if_neg hdirective] at hlay
  obtain ⟨tidied, htidy, rfl⟩ := exists_of_map_eq_ok hlay
  refine ⟨line, tidied, hline, htidy, ?_⟩
  have hheight : heightBefore family lines place =
      (((bracesOf family (lines.take place)).foldl depthAfter 0 : Nat) : Int) := by
    have hfront : NeverBelow (0 : Nat) (bracesOf family (lines.take place)) := by
      have hall := @bracesOf_append family (lines.take place) (lines.drop place)
      rw [List.take_append_drop] at hall
      rw [hall] at hbelow
      exact (Indent.neverBelow_append.mp hbelow).1
    rw [hfront.foldl_depthAfter, heightBefore]
    simp
  have hstart := tidy_startsWith (hplain line (List.mem_of_getElem? hline)) htidy '}'
  have hlow := lowest_nonneg hshape hbelow hline
  rw [hlaid, indented_eq, margin, shift_eq_nil (hstar tidied htidy), List.append_nil,
    Indent.levelAt, hstart]
  rw [lowest_eq hline, closings, hheight] at hlow ⊢
  congr 3
  cases hclose : line.trim.startsWith ['}'] with
  | false =>
      simp only [hclose, Bool.false_eq_true, and_false, if_false] at hlow ⊢
      omega
  | true =>
      simp only [hclose, hcode, and_self, if_true] at hlow ⊢
      omega

/-- **Blocks line up.** Let every line of code have no braces, or one at its start that closes, or
one that opens, or one that closes at its start and one that opens, and let no brace close what is
not open. Then every line of code that starts with a closing brace is written at the level of the
line with its opening brace, and every line of code between the two is written at a deeper one. The
lines around may be blank, belong to comments or be for the preprocessor. -/
theorem byDepth_lines_up (language : Option Text) (unit : IndentUnit)
    (hplain : ∀ line ∈ lines, markOpen ∉ line ∧ line.length ≤ numberLimit)
    (hstar : ∀ line ∈ lines, isCode family line = true → ∀ tidied,
      Line.tidy family language line = .ok tidied → tidied.startsWith ['*'] = false) :
    ∃ out, byDepth family language unit lines = .ok out ∧ out.length = lines.length ∧
      ∀ closer line, lines[closer]? = some line → isCode family line = true →
        line.trim.startsWith ['}'] = true →
        (∃ opener, Encloses family lines opener closer) ∧
        ∀ opener, Encloses family lines opener closer → ∃ level,
          IsAt family language unit lines out opener level ∧
          IsAt family language unit lines out closer level ∧
          ∀ between line', opener < between → between < closer → lines[between]? = some line' →
            isCode family line' = true →
            ∃ deeper, level < deeper ∧ IsAt family language unit lines out between deeper := by
  have hlayable : ∀ line ∈ lines, Layable family language line := fun line hline =>
    .inr (.inr (Line.restorable_of_plain family language (hplain line hline).1
      (hplain line hline).2))
  obtain ⟨out, hindent⟩ := (@exists_byDepthFrom_iff family language unit 0 lines).mpr hlayable
  have hat : ∀ place line, lines[place]? = some line → isCode family line = true →
      IsAt family language unit lines out place (lowest family lines place).toNat :=
    fun place line hline hcode => isAt_lowest hshape hbelow hcode (fun line hline =>
      (hplain line hline).1) (hstar line (List.mem_of_getElem? hline) hcode) hindent hline
  refine ⟨out, hindent, (layAt_of_byDepthFrom hindent).1, ?_⟩
  intro closer line hline hcode hstart
  have hcloses : closings family line = 1 := if_pos ⟨hcode, hstart⟩
  refine ⟨exists_encloses hshape hbelow hline hcloses, fun opener hencloses => ?_⟩
  obtain ⟨hlevel, hbetween⟩ := hencloses.lowest_eq hshape hline hcloses
  obtain ⟨openLine, hopenLine, hopens⟩ := hencloses.opens
  have hopenCode : isCode family openLine = true := by
    by_contra hother
    rw [lineBraces, if_neg hother] at hopens
    exact absurd (List.suffix_nil.mp hopens) (by simp)
  refine ⟨(lowest family lines opener).toNat, hat opener openLine hopenLine hopenCode, ?_, ?_⟩
  · rw [hlevel]
    exact hat closer line hline hcode
  · intro between line' hfrom hto hline' hcode'
    have hlow := lowest_nonneg hshape hbelow hopenLine
    have hhigher := hbetween between line' hfrom hto hline'
    exact ⟨_, by omega, hat between line' hline' hcode'⟩

omit hshape hbelow

/-- A block with a second one after it in which there are comments, a directive and blank lines. -/
theorem byDepth_lines_up_else :
    let lines := ["if (a) \x7b".toList, "/* \x7b".toList, "b = '\x7b' ;".toList,
      "\x7d else \x7b".toList, [], "#if 0 \x7b".toList, " c++; // \x7d".toList, "\x7d".toList]
    (∀ line ∈ lines, markOpen ∉ line ∧ line.length ≤ numberLimit) ∧
      (∀ line ∈ lines, isCode .cFamily line = true → Shaped .cFamily line) ∧
      NeverBelow 0 (bracesOf .cFamily lines) ∧
      ∃ out, byDepth .cFamily none ⟨"\t".toList, 1⟩ lines = .ok out ∧
        ∃ level, IsAt .cFamily none ⟨"\t".toList, 1⟩ lines out 3 level ∧
          IsAt .cFamily none ⟨"\t".toList, 1⟩ lines out 7 level ∧
          ∃ deeper, level < deeper ∧ IsAt .cFamily none ⟨"\t".toList, 1⟩ lines out 6 deeper := by
  intro lines
  have hplain : ∀ line ∈ lines, markOpen ∉ line ∧ line.length ≤ numberLimit := by
    have hshort : ∀ line ∈ lines, markOpen ∉ line ∧ line.length ≤ 20 := by decide +kernel
    exact fun line hline => ⟨(hshort line hline).1,
      Nat.le_trans (hshort line hline).2 (Nat.le_trans (by decide) Literal.addressLimit_le)⟩
  have hshape : ∀ line ∈ lines, isCode .cFamily line = true → Shaped .cFamily line := by
    decide +kernel
  have hbelow : NeverBelow 0 (bracesOf .cFamily lines) := by decide +kernel
  have hstar : ∀ line ∈ lines, isCode .cFamily line = true → ∀ tidied,
      Line.tidy .cFamily none line = .ok tidied → tidied.startsWith ['*'] = false := by
    have hall : ∀ line ∈ lines, ((Line.tidy .cFamily none line).toOption.all fun tidied =>
        tidied.startsWith ['*'] = false) = true := by decide +kernel
    intro line hline _ tidied htidy
    simpa [htidy, Except.toOption] using hall line hline
  obtain ⟨out, hout, _, hblocks⟩ := byDepth_lines_up hshape hbelow none ⟨"\t".toList, 1⟩ hplain hstar
  refine ⟨hplain, hshape, hbelow, out, hout, ?_⟩
  obtain ⟨_, hall⟩ := hblocks 7 "\x7d".toList rfl (by decide +kernel) (by decide +kernel)
  obtain ⟨level, hopener, hcloser, hbetween⟩ := hall 3
    ⟨by decide, ⟨_, rfl, by decide +kernel⟩, ⟨_, rfl, by decide +kernel⟩, by decide +kernel⟩
  exact ⟨level, hopener, hcloser, hbetween 6 _ (by decide) (by decide) rfl (by decide +kernel)⟩

end SourceLayout.Layout
