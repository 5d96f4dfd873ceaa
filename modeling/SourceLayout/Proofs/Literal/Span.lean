import SourceLayout.Proofs.Line

/-!
# Comments and literals of a line

The scanner for comments goes from character to character and knows no more than the delimiter it
waits for, while masking jumps from one quoted span to the next. They agree all the same: up to the
first comment masking finds closed spans only, and every comment marker passed over stands in one.
-/

namespace SourceLayout

namespace Literal

/-! ### Spans of a run -/

/-- A stretch of a text: its first place, and the place after its last. -/
structure Span where
  start : Nat
  stop : Nat
  deriving DecidableEq, Repr

def Span.Holds (span : Span) (place : Nat) : Prop :=
  span.start ≤ place ∧ place < span.stop

def Span.text (span : Span) (whole : Text) : Text :=
  (whole.take span.stop).drop span.start

/-- Where the spans are that a run of a finder cuts out. -/
def Finder.spansFrom (find : Finder) (before : Text) : Nat → Text → List Span
  | _, [] => []
  | skip + 1, c :: cs => find.spansFrom (c :: before) skip cs
  | 0, c :: cs =>
      match find before (c :: cs) with
      | 0 => find.spansFrom (c :: before) 0 cs
      | n + 1 =>
          ⟨before.length, before.length + (c :: cs.take n).length⟩ ::
            find.spansFrom (c :: before) n cs

def Finder.spans (find : Finder) (t : Text) : List Span :=
  find.spansFrom [] 0 t

/-- A text from a place on with marks, numbered upwards, instead of spans. -/
def cutOut (number place : Nat) (whole : Text) : List Span → Text
  | [] => whole.drop place
  | span :: spans =>
      (whole.take span.start).drop place ++ mark number ++
        cutOut (number + 1) span.stop whole spans

theorem cutOut_step {number place : Nat} {whole rest : Text} {c : Char} {spans : List Span}
    (hdrop : whole.drop place = c :: rest) (hspans : ∀ span ∈ spans, place < span.start) :
    cutOut number place whole spans = c :: cutOut number (place + 1) whole spans := by
  have hnext : whole.drop (place + 1) = rest := by
    rw [← List.drop_drop, hdrop, List.drop_succ_cons, List.drop_zero]
  cases spans with
  | nil => rw [cutOut, cutOut, hdrop, hnext]
  | cons span spans =>
      have hstart := hspans span List.mem_cons_self
      obtain ⟨k, hk⟩ : ∃ k, span.start - place = k + 1 := ⟨span.start - place - 1, by omega⟩
      have hk' : span.start - (place + 1) = k := by omega
      rw [cutOut, cutOut, List.drop_take, List.drop_take, hdrop, hnext, hk, hk']
      simp

namespace Finder

variable {find : Finder} {before : Text}

theorem spansFrom_drop (before : Text) (skip : Nat) (t : Text) :
    find.spansFrom before skip t =
      find.spansFrom ((t.take skip).reverse ++ before) 0 (t.drop skip) := by
  induction t generalizing before skip with
  | nil => simp [Finder.spansFrom]
  | cons c cs ih =>
      cases skip with
      | zero => rfl
      | succ skip => simp [Finder.spansFrom, ih]

theorem spansFrom_cons {c : Char} {cs : Text} (hfind : find before (c :: cs) = 0) :
    find.spansFrom before 0 (c :: cs) = find.spansFrom (c :: before) 0 cs := by
  rw [Finder.spansFrom, hfind]

theorem spansFrom_span {c : Char} {cs : Text} {n : Nat} (hfind : find before (c :: cs) = n + 1) :
    find.spansFrom before 0 (c :: cs) =
      ⟨before.length, before.length + (c :: cs.take n).length⟩ ::
        find.spansFrom ((c :: cs.take n).reverse ++ before) 0 (cs.drop n) := by
  rw [Finder.spansFrom, hfind]
  simp only [spansFrom_drop (c :: before) n]
  simp

theorem spansFrom_found {piece rest : Text} (hne : piece ≠ [])
    (hfind : find before (piece ++ rest) = piece.length) :
    find.spansFrom before 0 (piece ++ rest) =
      ⟨before.length, before.length + piece.length⟩ ::
        find.spansFrom (piece.reverse ++ before) 0 rest := by
  cases piece with
  | nil => exact absurd rfl hne
  | cons c cs =>
      rw [List.cons_append, List.length_cons] at hfind
      rw [List.cons_append, spansFrom_span hfind, List.take_left, List.drop_left]

theorem length_le_start {t : Text} {span : Span} (hspan : span ∈ find.spansFrom before 0 t) :
    before.length ≤ span.start := by
  induction before, t using scan_induct find with
  | done before => cases hspan
  | passed before c cs hfind ih =>
      rw [spansFrom_cons hfind] at hspan
      exact Nat.le_of_succ_le (ih hspan)
  | found before c cs n hfind ih =>
      rw [spansFrom_span hfind] at hspan
      rcases List.mem_cons.mp hspan with rfl | hmem
      · exact Nat.le_refl _
      · have hle := ih hmem
        rw [List.length_append] at hle
        omega

theorem maskFrom_eq_cutOut (find : Finder) (before t : Text) (literals : List Text) :
    find.maskFrom before 0 t literals =
      ⟨cutOut literals.length before.length (before.reverse ++ t) (find.spansFrom before 0 t),
        literals ++ (find.spansFrom before 0 t).map (Span.text · (before.reverse ++ t))⟩ := by
  induction before, t using scan_induct find generalizing literals with
  | done before => simp [Finder.maskFrom, Finder.spansFrom, cutOut]
  | passed before c cs hfind ih =>
      rw [maskFrom_cons hfind, spansFrom_cons hfind, ih literals]
      have hwhole : (c :: before).reverse ++ cs = before.reverse ++ c :: cs := by simp
      have hdrop : (before.reverse ++ c :: cs).drop before.length = c :: cs :=
        List.drop_left' (by simp)
      have hlater : ∀ span ∈ find.spansFrom (c :: before) 0 cs, before.length < span.start :=
        fun span hspan => length_le_start hspan
      rw [hwhole, cutOut_step hdrop hlater]
      rfl
  | found before c cs n hfind ih =>
      rw [maskFrom_span hfind, spansFrom_span hfind, ih]
      have hsplit : c :: cs = (c :: cs.take n) ++ cs.drop n := by simp
      rw [hsplit]
      generalize c :: cs.take n = piece
      have hwhole : (piece.reverse ++ before).reverse ++ cs.drop n =
          before.reverse ++ (piece ++ cs.drop n) := by simp
      have htext : Span.text ⟨before.length, before.length + piece.length⟩
          (before.reverse ++ (piece ++ cs.drop n)) = piece := by
        rw [Span.text, ← List.append_assoc, List.take_left' (by simp), List.drop_left' (by simp)]
      rw [hwhole]
      simp [cutOut, Masked.prepend, htext, Nat.add_comm]

/-- A run replaces the spans it finds, and nothing else, and adds them to the literals. -/
theorem run_eq_cutOut (find : Finder) (masked : Masked) :
    find.run masked = ⟨cutOut masked.literals.length 0 masked.text (find.spans masked.text),
      masked.literals ++ (find.spans masked.text).map (Span.text · masked.text)⟩ :=
  maskFrom_eq_cutOut find [] masked.text masked.literals

end Finder

/-! ### The end of a literal -/

/-- A text ends with the first delimiter in it that no backslash stands before. -/
inductive Closes (stop : Char) : Char → Text → Prop
  | stop {previous : Char} (hprevious : previous ≠ '\\') : Closes stop previous [stop]
  | pass {previous c : Char} {cs : Text} (hpass : ¬(c = stop ∧ previous ≠ '\\'))
      (hrest : Closes stop c cs) : Closes stop previous (c :: cs)

theorem Closes.lengthTo_eq {stop previous : Char} {inner : Text} (h : Closes stop previous inner)
    (rest : Text) : lengthTo stop previous (inner ++ rest) = inner.length := by
  induction h with
  | stop hprevious => simp [lengthTo, hprevious]
  | pass hpass _ ih => simp [lengthTo, hpass, ih]

/-- The scanner leaves a literal where it closes. -/
theorem Closes.startFrom_eq {stop previous : Char} {inner : Text} (h : Closes stop previous inner)
    (family : Family) (rest : Text) :
    Comment.startFrom family (some previous) (some stop) (inner ++ rest) =
      (Comment.startFrom family (some stop) none rest).map (· + inner.length) := by
  induction h with
  | stop hprevious => simp [Comment.startFrom, hprevious]
  | pass hpass _ ih => simp [Comment.startFrom, hpass, ih, Function.comp_def, Nat.add_assoc]

theorem Closes.getLast? {stop previous : Char} {inner : Text} (h : Closes stop previous inner) :
    inner.getLast? = some stop := by
  induction h with
  | stop => rfl
  | pass _ _ ih => simp [List.getLast?_cons, ih]

/-- A literal that never closes takes the rest of the line, for the scanner as well. -/
theorem closes_or_open (stop previous : Char) (t : Text) :
    (∃ inner rest, t = inner ++ rest ∧ Closes stop previous inner) ∨
      (lengthTo stop previous t = t.length ∧
        ∀ family, Comment.startFrom family (some previous) (some stop) t = none) := by
  induction t generalizing previous with
  | nil => exact .inr ⟨rfl, fun family => rfl⟩
  | cons c cs ih =>
      by_cases hstop : c = stop ∧ previous ≠ '\\'
      · obtain ⟨rfl, hprevious⟩ := hstop
        exact .inl ⟨[c], cs, rfl, .stop hprevious⟩
      · rcases ih c with ⟨inner, rest, rfl, hcloses⟩ | ⟨hlength, hstart⟩
        · exact .inl ⟨c :: inner, rest, rfl, .pass hstop hcloses⟩
        · refine .inr ⟨by simp [lengthTo, hstop, hlength], fun family => ?_⟩
          simp [Comment.startFrom, hstop, hstart family]

/-- A span that ends with the delimiter of the literal it starts with, and the letters after it if
the literal is a regular expression. -/
def Span.IsClosed (family : Family) (whole : Text) (span : Span) : Prop :=
  ∃ (opener stop : Char) (inner flags : Text),
    span.text whole = opener :: (inner ++ flags) ∧
      family.literalEnd? (whole.take span.start).getLast? opener = some stop ∧
      Closes stop opener inner ∧ flags.all isLetter = true ∧ (opener ≠ '/' → flags = [])

/-- The letters that belong to a literal which has closed. -/
def flagsOf (opener : Char) (rest : Text) : Text :=
  if opener = '/' then rest.takeWhile isLetter else []

/-- The letters end where they end, however much of the text after them is cut off. -/
theorem exists_flags (opener : Char) (rest : Text) :
    ∃ flags others, rest = flags ++ others ∧ flags.all isLetter = true ∧
      (opener ≠ '/' → flags = []) ∧
      ∀ count, flagsOf opener (flags ++ others.take count) = flags := by
  by_cases hslash : opener = '/'
  · refine ⟨rest.takeWhile isLetter, rest.dropWhile isLetter,
      List.takeWhile_append_dropWhile.symm, List.all_takeWhile, absurd hslash, ?_⟩
    intro count
    have hhead := List.head?_dropWhile_not isLetter rest
    rw [flagsOf, if_pos hslash,
      List.takeWhile_append_of_pos (List.all_eq_true.mp List.all_takeWhile)]
    cases hrest : rest.dropWhile isLetter with
    | nil => simp
    | cons c cs =>
        rw [hrest] at hhead
        have hc : isLetter c = false := by simpa using hhead
        cases count <;> simp [hc]
  · exact ⟨[], rest, rfl, rfl, fun _ => rfl, fun count => by simp [flagsOf, hslash]⟩

theorem quoted_eq_zero_of_none {family : Family} {before cs : Text} {c : Char}
    (hend : family.literalEnd? before.head? c = none) : quoted family before (c :: cs) = 0 := by
  simp [quoted, hend]

theorem quoted_of_closes {family : Family} {before inner rest : Text} {opener stop : Char}
    (hend : family.literalEnd? before.head? opener = some stop)
    (hcloses : Closes stop opener inner) :
    quoted family before (opener :: (inner ++ rest)) =
      inner.length + (flagsOf opener rest).length + 1 := by
  simp only [quoted, hend, hcloses.lengthTo_eq, List.drop_left, flagsOf]

theorem quoted_of_open {family : Family} {before cs : Text} {opener stop : Char}
    (hend : family.literalEnd? before.head? opener = some stop)
    (hopen : lengthTo stop opener cs = cs.length) :
    quoted family before (opener :: cs) = cs.length + 1 := by
  simp [quoted, hend, hopen]

end Literal

namespace Comment

open Literal (Span Closes quoted flagsOf cutOut)

/-- What starts a comment. -/
def markers : Family → List Text
  | .javascript | .cFamily => [['/', '/'], ['/', '*']]
  | .python => [['#']]
  | .html | .css => []

theorem opensComment_iff (family : Family) (t : Text) :
    family.opensComment t = true ↔ ∃ marker ∈ markers family, marker <+: t := by
  match family, t with
  | .html, _ => simp [Family.opensComment, markers]
  | .css, _ => simp [Family.opensComment, markers]
  | .python, [] => simp [Family.opensComment, markers]
  | .python, c :: cs =>
      by_cases hc : c = '#'
      · simp [Family.opensComment, markers, hc]
      · simp [Family.opensComment, markers, hc, Ne.symm hc]
  | .javascript, [] => simp [Family.opensComment, markers]
  | .javascript, [c] => simp [Family.opensComment, markers]
  | .javascript, c :: d :: cs =>
      by_cases hc : c = '/'
      · simp [Family.opensComment, markers, hc, @eq_comm _ d]
      · simp [Family.opensComment, markers, hc, Ne.symm hc]
  | .cFamily, [] => simp [Family.opensComment, markers]
  | .cFamily, [c] => simp [Family.opensComment, markers]
  | .cFamily, c :: d :: cs =>
      by_cases hc : c = '/'
      · simp [Family.opensComment, markers, hc, @eq_comm _ d]
      · simp [Family.opensComment, markers, hc, Ne.symm hc]

/-! ### Up to the first comment -/

/-- The text that the scanner passes over before it finds a comment, after some text before. -/
def passed (family : Family) (before t : Text) : Text :=
  t.take ((startFrom family before.head? none t).getD t.length)

theorem passed_append {family : Family} {before piece rest : Text}
    (hstart : startFrom family before.head? none (piece ++ rest) =
      (startFrom family (piece.reverse ++ before).head? none rest).map (· + piece.length)) :
    passed family before (piece ++ rest) =
      piece ++ passed family (piece.reverse ++ before) rest := by
  rw [passed, passed, hstart]
  cases startFrom family (piece.reverse ++ before).head? none rest with
  | none => simp [List.take_of_length_le]
  | some place =>
      rw [Option.map_some, Option.getD_some, Option.getD_some, Nat.add_comm,
        List.take_length_add_append]

theorem not_opensComment_of_isLetter {c : Char} (hletter : isLetter c = true) (family : Family)
    (cs : Text) : family.opensComment (c :: cs) = false := by
  have hslash : c ≠ '/' := by
    rintro rfl
    exact absurd hletter (by decide +kernel)
  have hhash : c ≠ '#' := by
    rintro rfl
    exact absurd hletter (by decide +kernel)
  unfold Family.opensComment
  split <;> simp_all

theorem literalEnd?_of_isLetter {c : Char} (hletter : isLetter c = true) (family : Family)
    (previous : Option Char) : family.literalEnd? previous c = none := by
  have hquotes : ('/' :: family.quotes).all (!isLetter ·) = true := by
    cases family <;> decide +kernel
  have hc : c ∉ '/' :: family.quotes := by
    intro hmem
    have hquote := List.all_eq_true.mp hquotes c hmem
    rw [hletter] at hquote
    cases hquote
  rw [List.mem_cons, not_or] at hc
  simp [Family.literalEnd?, hc.1, hc.2]

/-- The scanner passes over the letters after a regular expression. -/
theorem startFrom_letters {flags : Text} (hflags : flags.all isLetter = true) (family : Family)
    (before rest : Text) :
    startFrom family before.head? none (flags ++ rest) =
      (startFrom family (flags.reverse ++ before).head? none rest).map (· + flags.length) := by
  induction flags generalizing before with
  | nil => simp
  | cons c cs ih =>
      rw [List.all_cons, Bool.and_eq_true] at hflags
      have hrest := ih hflags.2 (c :: before)
      rw [List.head?_cons] at hrest
      simp [startFrom, not_opensComment_of_isLetter hflags.1, literalEnd?_of_isLetter hflags.1,
        hrest, Function.comp_def, Nat.add_assoc]

/-- Where the scanner and the spans of a run agree: if there is a comment, all spans before it are
closed, and every comment sign that is passed over stands in a span. -/
structure Agrees (family : Family) (before t : Text) : Prop where
  closed : (startFrom family before.head? none t).isSome →
    ∀ span ∈ (quoted family).spansFrom before 0 (passed family before t),
      span.IsClosed family (before.reverse ++ passed family before t)
  inside : ∀ place < (passed family before t).length,
    family.opensComment (t.drop place) = true →
      ∃ span ∈ (quoted family).spansFrom before 0 (passed family before t),
        span.Holds (before.length + place)

theorem Agrees.comment {family : Family} {before cs : Text} {c : Char}
    (hopens : family.opensComment (c :: cs) = true) : Agrees family before (c :: cs) := by
  have hpassed : passed family before (c :: cs) = [] := by
    simp [passed, startFrom, hopens]
  constructor
  · simp [hpassed, Literal.Finder.spansFrom]
  · simp [hpassed]

/-- One character that is neither part of a literal nor the start of a comment. -/
theorem Agrees.char {family : Family} {before cs : Text} {c : Char}
    (hopens : family.opensComment (c :: cs) = false)
    (hend : family.literalEnd? before.head? c = none) (h : Agrees family (c :: before) cs) :
    Agrees family before (c :: cs) := by
  have hstart : startFrom family before.head? none ([c] ++ cs) =
      (startFrom family ([c].reverse ++ before).head? none cs).map (· + [c].length) := by
    simp [startFrom, hopens, hend]
  have hpassed : passed family before (c :: cs) = c :: passed family (c :: before) cs :=
    passed_append hstart
  have hspans := @Literal.Finder.spansFrom_cons (quoted family) before c
    (passed family (c :: before) cs) (Literal.quoted_eq_zero_of_none hend)
  constructor
  · rw [hpassed, hspans]
    intro hsome span hspan
    have hclosed := h.closed (by simpa [startFrom, hopens, hend] using hsome) span hspan
    simpa using hclosed
  · rw [hpassed, hspans]
    intro place hplace hmarker
    cases place with
    | zero => simp [hopens] at hmarker
    | succ place =>
        obtain ⟨span, hspan, hholds⟩ := h.inside place (by simpa using hplace) hmarker
        refine ⟨span, hspan, ?_⟩
        rw [List.length_cons] at hholds
        rwa [Nat.add_comm place, ← Nat.add_assoc]

/-- A piece that is passed over as one span. -/
theorem Agrees.span {family : Family} {before piece others : Text} (hne : piece ≠ [])
    (hstart : startFrom family before.head? none (piece ++ others) =
      (startFrom family (piece.reverse ++ before).head? none others).map (· + piece.length))
    (hfind : quoted family before (piece ++ passed family (piece.reverse ++ before) others) =
      piece.length)
    (hown : Span.IsClosed family
      (before.reverse ++ (piece ++ passed family (piece.reverse ++ before) others))
      ⟨before.length, before.length + piece.length⟩)
    (h : Agrees family (piece.reverse ++ before) others) :
    Agrees family before (piece ++ others) := by
  have hspans := Literal.Finder.spansFrom_found hne hfind
  constructor
  · rw [passed_append hstart, hspans, hstart, Option.isSome_map]
    intro hcomment span hspan
    rcases List.mem_cons.mp hspan with rfl | hspan
    · exact hown
    · have hclosed := h.closed hcomment span hspan
      rwa [List.reverse_append, List.reverse_reverse, List.append_assoc] at hclosed
  · rw [passed_append hstart, hspans]
    intro place hplace hmarker
    by_cases hinside : place < piece.length
    · exact ⟨_, List.mem_cons_self, Nat.le_add_right _ _, Nat.add_lt_add_left hinside _⟩
    · obtain ⟨later, rfl⟩ := Nat.exists_eq_add_of_le (Nat.le_of_not_lt hinside)
      rw [List.length_append, Nat.add_lt_add_iff_left] at hplace
      rw [← List.drop_drop, List.drop_left] at hmarker
      obtain ⟨span, hspan, hholds⟩ := h.inside later hplace hmarker
      refine ⟨span, List.mem_cons_of_mem _ hspan, ?_⟩
      rwa [List.length_append, List.length_reverse, Nat.add_comm _ before.length,
        Nat.add_assoc] at hholds

/-- The scanner passes over a literal that closes and the letters after it. -/
theorem startFrom_literal {family : Family} {before inner flags others : Text} {opener stop : Char}
    (hopens : family.opensComment (opener :: (inner ++ flags) ++ others) = false)
    (hend : family.literalEnd? before.head? opener = some stop) (hcloses : Closes stop opener inner)
    (hletters : flags.all isLetter = true) :
    startFrom family before.head? none (opener :: (inner ++ flags) ++ others) =
      (startFrom family ((opener :: (inner ++ flags)).reverse ++ before).head? none others).map
        (· + (opener :: (inner ++ flags)).length) := by
  have hlast : some stop = ((opener :: inner).reverse ++ before).head? := by
    simp [hcloses.getLast?]
  rw [List.cons_append] at hopens ⊢
  rw [startFrom, hopens, if_neg (by simp), hend, List.append_assoc, hcloses.startFrom_eq, hlast,
    startFrom_letters hletters]
  simp only [Option.map_map, Function.comp_def, List.reverse_cons, List.reverse_append,
    List.append_assoc, List.length_cons, List.length_append]
  exact congrArg (Option.map · _) (funext fun place => by omega)

/-- A literal that closes, with its letters. -/
theorem Agrees.literal {family : Family} {before inner flags others : Text} {opener stop : Char}
    (hopens : family.opensComment (opener :: (inner ++ flags) ++ others) = false)
    (hend : family.literalEnd? before.head? opener = some stop) (hcloses : Closes stop opener inner)
    (hletters : flags.all isLetter = true) (hslash : opener ≠ '/' → flags = [])
    (hflags : ∀ count, flagsOf opener (flags ++ others.take count) = flags)
    (h : Agrees family ((opener :: (inner ++ flags)).reverse ++ before) others) :
    Agrees family before (opener :: (inner ++ flags) ++ others) := by
  refine .span (by simp) (startFrom_literal hopens hend hcloses hletters) ?_ ?_ h
  · rw [List.cons_append, List.append_assoc, Literal.quoted_of_closes hend hcloses, passed, hflags,
      List.length_cons, List.length_append]
  · refine ⟨opener, stop, inner, flags, ?_, ?_, hcloses, hletters, hslash⟩
    · rw [Span.text, ← List.append_assoc, List.take_left' (by simp), List.drop_left' (by simp)]
    · rwa [List.take_left' (by simp), List.getLast?_reverse]

/-- A literal that never closes. -/
theorem Agrees.unclosed {family : Family} {before cs : Text} {opener stop : Char}
    (hopens : family.opensComment (opener :: cs) = false)
    (hend : family.literalEnd? before.head? opener = some stop)
    (hlength : Literal.lengthTo stop opener cs = cs.length)
    (hopen : startFrom family (some opener) (some stop) cs = none) :
    Agrees family before (opener :: cs) := by
  have hstart : startFrom family before.head? none (opener :: cs) = none := by
    simp [startFrom, hopens, hend, hopen]
  have hpassed : passed family before (opener :: cs) = opener :: cs := by
    simp [passed, hstart]
  have hspans := Literal.Finder.spansFrom_span (Literal.quoted_of_open hend hlength)
  constructor
  · simp [hstart]
  · rw [hpassed, hspans, List.take_length]
    intro place hplace _
    exact ⟨_, List.mem_cons_self, Nat.le_add_right _ _, Nat.add_lt_add_left hplace _⟩

theorem agrees (family : Family) (before t : Text) : Agrees family before t := by
  induction hlength : t.length using Nat.strongRecOn generalizing before t with
  | ind length ih =>
      cases t with
      | nil => exact ⟨by simp [startFrom], by simp [passed]⟩
      | cons c cs =>
          rw [List.length_cons] at hlength
          cases hopens : family.opensComment (c :: cs) with
          | true => exact .comment hopens
          | false =>
              cases hend : family.literalEnd? before.head? c with
              | none => exact .char hopens hend (ih cs.length (by omega) (c :: before) cs rfl)
              | some stop =>
                  rcases Literal.closes_or_open stop c cs with
                    ⟨inner, rest, rfl, hcloses⟩ | ⟨hopen, hstart⟩
                  · obtain ⟨flags, others, rfl, hletters, hslash, hflags⟩ :=
                      Literal.exists_flags c rest
                    have hshort : others.length < length := by
                      simp only [List.length_append] at hlength
                      omega
                    have hsplit : c :: (inner ++ (flags ++ others)) =
                        c :: (inner ++ flags) ++ others := by simp
                    rw [hsplit] at hopens ⊢
                    exact .literal hopens hend hcloses hletters hslash hflags
                      (ih _ hshort _ others rfl)
                  · exact .unclosed hopens hend hopen (hstart family)

theorem lt_length_of_opensComment {family : Family} {line : Text} {place : Nat}
    (hopens : family.opensComment (line.drop place) = true) : place < line.length := by
  apply Nat.lt_of_not_le
  intro hle
  rw [List.drop_of_length_le hle] at hopens
  cases family <;> simp [Family.opensComment] at hopens

theorem split_eq (family : Family) (line : Text) :
    ∃ gap : Text, gap.all isBlank = true ∧
      line = (split family line).code ++ gap ++ (split family line).comment := by
  rw [split]
  split
  next => exact ⟨[], rfl, by simp⟩
  next place _ =>
      obtain ⟨gap, hgap, hcode⟩ := Text.trimRight_append (line.take place)
      refine ⟨gap, hgap, ?_⟩
      rw [hcode, List.take_append_drop]

/-- **The scanner for comments and masking agree on what is inside a literal.** Masking replaces the
spans it finds and nothing else. Where the scanner finds a comment there is a marker, the spans that
masking finds in the text before are closed, and every marker that starts before the comment starts
in one of them. Where it finds none, every marker starts in a span that masking finds in the line.
And a line is its code, blanks and its comment. -/
theorem scanners_agree (family : Family) (line : Text) :
    (∀ masked, (quoted family).run masked =
      ⟨cutOut masked.literals.length 0 masked.text ((quoted family).spans masked.text),
        masked.literals ++ ((quoted family).spans masked.text).map (Span.text · masked.text)⟩) ∧
    (∀ place, start? family line = some place →
      (∃ marker ∈ markers family, marker <+: line.drop place) ∧
      (∀ span ∈ (quoted family).spans (line.take place), span.IsClosed family (line.take place)) ∧
      ∀ earlier < place, (∃ marker ∈ markers family, marker <+: line.drop earlier) →
        ∃ span ∈ (quoted family).spans (line.take place), span.Holds earlier) ∧
    (start? family line = none →
      ∀ place, (∃ marker ∈ markers family, marker <+: line.drop place) →
        ∃ span ∈ (quoted family).spans line, span.Holds place) ∧
    ∃ gap : Text, gap.all isBlank = true ∧
      line = (split family line).code ++ gap ++ (split family line).comment := by
  have hagrees := agrees family [] line
  simp only [← opensComment_iff]
  refine ⟨Literal.Finder.run_eq_cutOut (quoted family), ?_, ?_, split_eq family line⟩
  · intro place hstart
    have hopens := opensComment_of_startFrom hstart
    have hpassed : passed family [] line = line.take place := by
      rw [passed, List.head?_nil, ← start?, hstart, Option.getD_some]
    refine ⟨hopens, ?_, ?_⟩
    · have hclosed := hagrees.closed (by rw [List.head?_nil, ← start?, hstart]; rfl)
      rwa [hpassed] at hclosed
    · intro earlier hearlier hmarker
      have hlength : earlier < (line.take place).length := by
        have hplace := lt_length_of_opensComment hopens
        rw [List.length_take]
        omega
      have hinside := hagrees.inside earlier (by rwa [hpassed]) hmarker
      rwa [hpassed, List.length_nil, Nat.zero_add] at hinside
  · intro hstart place hmarker
    have hpassed : passed family [] line = line := by
      rw [passed, List.head?_nil, ← start?, hstart, Option.getD_none, List.take_length]
    have hlength := lt_length_of_opensComment hmarker
    have hinside := hagrees.inside place (by rwa [hpassed]) hmarker
    rwa [hpassed, List.length_nil, Nat.zero_add] at hinside

end Comment

end SourceLayout
