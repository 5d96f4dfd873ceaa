import Mathlib.Data.Bool.AllAny
import SourceLayout.Proofs.Markup
import SourceLayout.Proofs.Pieces

/-!
# Kinds of literals

The literals of code are not nested: the first run cuts out quoted ones, and no later one takes a
mark into a span. So a literal is a quoted one that closes, or one that never closes and then is the
last thing of the code, or it is quiet: a number, an argument list or a shift, without a character
that would start a literal or a comment or count as a brace.
-/

namespace SourceLayout.Literal

variable {family : Family} {mayEnd : Bool} {literals : List Text}

/-- A quoted literal that closes, with the letters after it. -/
def IsClosed (family : Family) (span : Text) : Prop :=
  ∃ previous opener stop inner flags, span = opener :: (inner ++ flags) ∧
    family.literalEnd? previous opener = some stop ∧ Closes stop opener inner ∧
    flags.all isLetter = true ∧ (opener ≠ '/' → flags = [])

/-- A quoted literal that never closes. -/
def IsUnclosed (family : Family) (span : Text) : Prop :=
  ∃ previous opener stop inner, span = opener :: inner ∧
    family.literalEnd? previous opener = some stop ∧
    ∀ front, front <+: inner → ¬Closes stop opener front

/-- What starts a literal or a comment, opens a parenthesis or counts as a brace. -/
def isLoud (c : Char) : Bool :=
  c ∈ "/'\"`(\x7b\x7d".toList || c == markOpen

structure IsQuiet (span : Text) : Prop where
  ne_nil : span ≠ []
  quiet : ∀ c ∈ span, isLoud c = false
  head : headIs (· == '*') span = false
  last : headIs (· == '*') span.reverse = false

/-- A masked text whose literals are of these kinds; one that does not close is there only if the
text may end inside a literal. -/
inductive Reads (family : Family) (mayEnd : Bool) (literals : List Text) : Text → Prop
  | nil : Reads family mayEnd literals []
  | char {c : Char} {t : Text} (hc : c ≠ markOpen) (hquote : c ∉ family.quotes)
      (hrest : Reads family mayEnd literals t) : Reads family mayEnd literals (c :: t)
  | closed {number : Nat} {span t : Text} (hget : literals[number]? = some span)
      (hplain : markOpen ∉ span) (hspan : IsClosed family span)
      (hrest : Reads family mayEnd literals t) : Reads family mayEnd literals (mark number ++ t)
  | quiet {number : Nat} {span t : Text} (hget : literals[number]? = some span)
      (hspan : IsQuiet span) (hrest : Reads family mayEnd literals t) :
      Reads family mayEnd literals (mark number ++ t)
  | unclosed {number : Nat} {span : Text} (hget : literals[number]? = some span)
      (hplain : markOpen ∉ span) (hspan : IsUnclosed family span) (hend : mayEnd = true) :
      Reads family mayEnd literals (mark number)

namespace Reads

theorem extend (extra : List Text) {t : Text} (h : Reads family mayEnd literals t) :
    Reads family mayEnd (literals ++ extra) t := by
  have hmore : ∀ {number : Nat} {span : Text}, literals[number]? = some span →
      (literals ++ extra)[number]? = some span := fun hget => by
    rwa [List.getElem?_append_left (List.getElem?_eq_some_iff.mp hget).1]
  induction h with
  | nil => exact .nil
  | char hc hquote _ ih => exact .char hc hquote ih
  | closed hget hplain hspan _ ih => exact .closed (hmore hget) hplain hspan ih
  | quiet hget hspan _ ih => exact .quiet (hmore hget) hspan ih
  | unclosed hget hplain hspan hend => exact .unclosed (hmore hget) hplain hspan hend

theorem of_append {front t : Text} (hplain : markOpen ∉ front)
    (h : Reads family mayEnd literals (front ++ t)) : Reads family mayEnd literals t := by
  induction front with
  | nil => exact h
  | cons c cs ih =>
      rw [List.mem_cons, not_or] at hplain
      generalize hall : c :: cs ++ t = all at h
      cases h with
      | nil => cases hall
      | char _ _ hrest =>
          obtain ⟨rfl, rfl⟩ := List.cons.inj hall
          exact ih hplain.2 hrest
      | closed | quiet | unclosed => exact absurd (List.cons.inj hall).1.symm hplain.1

end Reads

/-! ### The first run -/

theorem quotes_of_literalEnd?_none {family : Family} {previous : Option Char} {c : Char}
    (hend : family.literalEnd? previous c = none) : c ∉ family.quotes := by
  intro hquote
  rw [Family.literalEnd?, if_pos hquote] at hend
  cases hend

/-- A text after which, past blanks, a comment is found. -/
def EndsOutside (family : Family) (previous : Option Char) (t : Text) : Prop :=
  ∃ gap comment : Text, gap.all isBlank = true ∧
    Comment.startFrom family previous none (t ++ (gap ++ comment)) = some (t.length + gap.length)

theorem EndsOutside.of_append {family : Family} {before piece others : Text} (hne : piece ≠ [])
    (hstart : ∀ rest, family.opensComment (piece ++ rest) = false →
      Comment.startFrom family before.head? none (piece ++ rest) =
        (Comment.startFrom family (piece.reverse ++ before).head? none rest).map (· + piece.length))
    (h : EndsOutside family before.head? (piece ++ others)) :
    EndsOutside family (piece.reverse ++ before).head? others := by
  obtain ⟨gap, comment, hgap, hplace⟩ := h
  refine ⟨gap, comment, hgap, ?_⟩
  have hpositive : 0 < piece.length := List.length_pos_iff.mpr hne
  rw [List.append_assoc, List.length_append] at hplace
  have hopens : family.opensComment (piece ++ (others ++ (gap ++ comment))) = false := by
    cases piece with
    | nil => exact absurd rfl hne
    | cons c cs =>
        cases hopens : family.opensComment (c :: cs ++ (others ++ (gap ++ comment))) with
        | false => rfl
        | true =>
            rw [List.cons_append] at hopens hplace
            rw [Comment.startFrom] at hplace
            simp only [hopens, if_true, Option.some.injEq] at hplace
            omega
  rw [hstart _ hopens] at hplace
  obtain ⟨place, hlater, heq⟩ := Option.map_eq_some_iff.mp hplace
  rw [hlater]
  exact congrArg some (by omega)

/-- No comment is found right after blanks in a literal that does not close. -/
theorem startFrom_unclosed {family : Family} {stop : Char} (hstop : isBlank stop = false)
    {gap : Text} (hgap : gap.all isBlank = true) (comment : Text) {previous : Char} {inner : Text}
    (hopen : ∀ front, front <+: inner → ¬Closes stop previous front) :
    Comment.startFrom family (some previous) (some stop) (inner ++ (gap ++ comment)) ≠
      some (inner.length + gap.length) := by
  have hstep : ∀ {previous c : Char} {cs : Text} {place : Nat}, ¬(c = stop ∧ previous ≠ '\\') →
      Comment.startFrom family (some c) (some stop) cs ≠ some place →
      Comment.startFrom family (some previous) (some stop) (c :: cs) ≠ some (place + 1) := by
    intro previous c cs place hpass hne heq
    rw [Comment.startFrom] at heq
    simp only [Option.some.injEq, ne_eq, hpass, if_false] at heq
    obtain ⟨later, hlater, hplace⟩ := Option.map_eq_some_iff.mp heq
    exact hne (by rw [hlater, Nat.succ.inj hplace])
  induction inner generalizing previous with
  | nil =>
      rw [List.nil_append, List.length_nil, Nat.zero_add]
      clear hopen
      induction gap generalizing previous with
      | nil =>
          cases comment with
          | nil => simp [Comment.startFrom]
          | cons d ds => simp [Comment.startFrom]
      | cons b bs ih =>
          rw [List.all_cons, Bool.and_eq_true] at hgap
          refine hstep ?_ (ih hgap.2)
          rintro ⟨rfl, _⟩
          rw [hgap.1] at hstop
          cases hstop
  | cons c cs ih =>
      have hpass : ¬(c = stop ∧ previous ≠ '\\') := by
        rintro ⟨rfl, hprevious⟩
        exact hopen [c] (by simp) (.stop hprevious)
      rw [List.cons_append, List.length_cons, Nat.add_right_comm]
      refine hstep hpass (ih fun front hfront hcloses => ?_)
      exact hopen (c :: front) (List.cons_prefix_cons.mpr ⟨rfl, hfront⟩) (.pass hpass hcloses)

/-- How the first run reads a text after the text before: character by character outside of
literals, and a literal with its letters, or one that does not close, in one span. -/
inductive QuotedRun (family : Family) : Text → Text → Prop
  | nil {before : Text} : QuotedRun family before []
  | char {before cs : Text} {c : Char} (hend : family.literalEnd? before.head? c = none)
      (hrest : QuotedRun family (c :: before) cs) : QuotedRun family before (c :: cs)
  | closed {before inner flags others : Text} {opener stop : Char}
      (hend : family.literalEnd? before.head? opener = some stop)
      (hcloses : Closes stop opener inner) (hletters : flags.all isLetter = true)
      (hslash : opener ≠ '/' → flags = [])
      (hfind : quoted family before (opener :: (inner ++ flags) ++ others) =
        (opener :: (inner ++ flags)).length)
      (hrest : QuotedRun family ((opener :: (inner ++ flags)).reverse ++ before) others) :
      QuotedRun family before (opener :: (inner ++ flags) ++ others)
  | unclosed {before inner : Text} {opener stop : Char}
      (hend : family.literalEnd? before.head? opener = some stop)
      (hnever : ∀ front, front <+: inner → ¬Closes stop opener front)
      (hfind : quoted family before (opener :: inner ++ []) = (opener :: inner).length) :
      QuotedRun family before (opener :: inner ++ [])

theorem quotedRun (family : Family) (before t : Text) : QuotedRun family before t := by
  induction hlength : t.length using Nat.strongRecOn generalizing before t with
  | ind length ih =>
      cases t with
      | nil => exact .nil
      | cons c cs =>
          rw [List.length_cons] at hlength
          cases hend : family.literalEnd? before.head? c with
          | none => exact .char hend (ih cs.length (by omega) (c :: before) cs rfl)
          | some stop =>
              by_cases hclose : ∃ inner rest, cs = inner ++ rest ∧ Closes stop c inner
              · obtain ⟨inner, rest, rfl, hcloses⟩ := hclose
                obtain ⟨flags, others, rfl, hletters, hslash, hflags⟩ := exists_flags c rest
                have hflags := hflags others.length
                rw [List.take_length] at hflags
                have hsplit : c :: (inner ++ (flags ++ others)) =
                    c :: (inner ++ flags) ++ others := by simp
                have hfind : quoted family before (c :: (inner ++ flags) ++ others) =
                    (c :: (inner ++ flags)).length := by
                  rw [← hsplit, quoted_of_closes hend hcloses, hflags]
                  simp
                have hshort : others.length < length := by
                  simp only [List.length_append] at hlength
                  omega
                rw [hsplit]
                exact .closed hend hcloses hletters hslash hfind (ih _ hshort _ others rfl)
              · have hopen := (closes_or_open stop c cs).resolve_left hclose
                have hfind : quoted family before (c :: cs ++ []) = (c :: cs).length := by
                  rw [List.append_nil, quoted_of_open hend hopen.1, List.length_cons]
                rw [← List.append_nil (c :: cs)]
                exact .unclosed hend
                  (fun front ⟨rest, hrest⟩ hcloses => hclose ⟨front, rest, hrest.symm, hcloses⟩) hfind

theorem reads_quoted {family : Family} {before t : Text} (hrun : QuotedRun family before t)
    (hplain : markOpen ∉ t) (hends : mayEnd = false → EndsOutside family before.head? t)
    (literals : List Text) :
    Reads family mayEnd ((quoted family).maskFrom before 0 t literals).literals
      ((quoted family).maskFrom before 0 t literals).text := by
  induction hrun generalizing literals with
  | nil => exact .nil
  | @char before cs c hend _ ih =>
      have hlater : mayEnd = false → EndsOutside family (c :: before).head? cs := fun hmay =>
        @EndsOutside.of_append family before [c] cs (by simp) (fun rest hopens => by
          rw [List.singleton_append] at hopens ⊢
          rw [Comment.startFrom, hopens]
          simp [hend]) (hends hmay)
      rw [List.mem_cons, not_or] at hplain
      rw [Finder.maskFrom_cons (quoted_eq_zero_of_none hend)]
      exact .char (Ne.symm hplain.1) (quotes_of_literalEnd?_none hend)
        (ih hplain.2 hlater literals)
  | closed hend hcloses hletters hslash hfind _ ih =>
      have hlater := fun hmay => EndsOutside.of_append (by simp)
        (fun rest hopens => Comment.startFrom_literal hopens hend hcloses hletters) (hends hmay)
      rw [List.mem_append, not_or] at hplain
      rw [Finder.maskFrom_found (by simp) hfind]
      exact .closed (Finder.getElem?_maskFrom _ _ _ _ _) hplain.1
        ⟨_, _, _, _, _, rfl, hend, hcloses, hletters, hslash⟩ (ih hplain.2 hlater _)
  | @unclosed before inner opener stop hend hnever hfind =>
      have hmay : mayEnd = true := by
        rw [← Bool.not_eq_false]
        intro hmay
        obtain ⟨gap, comment, hgap, hplace⟩ := hends hmay
        obtain ⟨hsolid, rfl⟩ := isBlank_of_literalEnd? hend
        rw [List.append_nil, List.cons_append, Comment.startFrom] at hplace
        simp only [hend] at hplace
        split at hplace
        next =>
            simp at hplace
            omega
        next =>
            obtain ⟨place, hlater, heq⟩ := Option.map_eq_some_iff.mp hplace
            refine startFrom_unclosed hsolid hgap comment hnever (hlater.trans ?_)
            rw [List.length_cons] at heq
            exact congrArg some (by omega)
      rw [List.append_nil] at hplain
      have hlast : Reads family mayEnd (literals ++ [opener :: inner]) (mark literals.length) :=
        .unclosed (by simp) hplain ⟨_, opener, stop, inner, rfl, hend, hnever⟩ hmay
      rw [Finder.maskFrom_found (by simp) hfind]
      simpa [Finder.maskFrom] using hlast

/-! ### Later runs -/

/-- A finder of quiet spans. -/
def Finder.FindsQuiet (find : Finder) : Prop :=
  ∀ (before : Text) (c : Char) (cs : Text) (n : Nat), find before (c :: cs) = n + 1 →
    IsQuiet (c :: cs.take n)

theorem IsQuiet.plain {span : Text} (h : IsQuiet span) : markOpen ∉ span := by
  intro hmem
  have hquiet := h.quiet markOpen hmem
  simp [isLoud] at hquiet

/-- A run of such a finder leaves the marks, and its own are quiet. -/
theorem Finder.FindsQuiet.reads {find : Finder} (hquiet : find.FindsQuiet)
    (hrespects : find.Respects) {t : Text} (h : Reads family mayEnd literals t) (before : Text) :
    Reads family mayEnd (find.maskFrom before 0 t literals).literals
      (find.maskFrom before 0 t literals).text := by
  induction hlength : t.length using Nat.strongRecOn generalizing t literals before with
  | ind length ih =>
      have hshort : ∀ (number : Nat) (rest : Text), rest.length < (mark number ++ rest).length := by
        intro number rest
        rw [List.length_append]
        simp [mark]
      cases h with
      | nil => exact .nil
      | @char c t hc hquote hrest =>
          rw [List.length_cons] at hlength
          cases hfind : find before (c :: t) with
          | zero =>
              rw [maskFrom_cons hfind]
              exact .char hc hquote (ih t.length (by omega) hrest (c :: before) rfl)
          | succ n =>
              have hspan := hquiet before c t n hfind
              have hwhole : Reads family mayEnd literals ((c :: t.take n) ++ t.drop n) := by
                rw [List.cons_append, List.take_append_drop]
                exact .char hc hquote hrest
              have hlater := (hwhole.of_append hspan.plain).extend [c :: t.take n]
              have hdrop : (t.drop n).length < length := by
                rw [List.length_drop]
                omega
              rw [maskFrom_span hfind]
              exact .quiet (getElem?_maskFrom _ _ _ _ _) hspan (ih _ hdrop hlater _ rfl)
      | @closed number span t hget hplain hspan hrest =>
          rw [maskFrom_pass (hrespects.passes before number t)]
          exact .closed (find.getElem?_literals _ _ hget) hplain hspan (ih _ (hlength ▸ hshort number t) hrest _ rfl)
      | @quiet number span t hget hspan hrest =>
          rw [maskFrom_pass (hrespects.passes before number t)]
          exact .quiet (find.getElem?_literals _ _ hget) hspan (ih _ (hlength ▸ hshort number t) hrest _ rfl)
      | @unclosed number span hget hplain hspan hend =>
          have hpass := @maskFrom_pass find before literals (mark number) []
            (hrespects.passes before number [])
          rw [List.append_nil] at hpass
          rw [hpass]
          have hlast : Reads family mayEnd literals (mark number) := .unclosed hget hplain hspan hend
          simpa [Finder.maskFrom] using hlast

/-! ### The finders of quiet spans -/

theorem isLoud_eq_false {p : Char → Bool}
    (hnone : ∀ d ∈ markOpen :: "/'\"`(\x7b\x7d".toList, p d = false) {c : Char}
    (hc : p c = true) : isLoud c = false := by
  rw [Bool.eq_false_iff]
  intro hloud
  rw [hnone c (by simpa [isLoud, or_comm] using hloud)] at hc
  cases hc

theorem isLoud_of_isTypeListChar {c : Char} (htype : isTypeListChar c = true) :
    isLoud c = false :=
  isLoud_eq_false (List.all_iff_forall_prop.mp (by decide +kernel)) htype

/-- The characters of a number with an exponent. -/
def isNumeral (c : Char) : Bool :=
  isDecimal c || c ∈ ".eE+-".toList

theorem isNumeral_of_exponent {before rest : Text} {n : Nat} (hfind : exponent before rest = n + 1) :
    ∀ c ∈ rest.take (n + 1), isNumeral c = true := by
  have hdecimal : ∀ c, isDecimal c = true → isNumeral c = true := by
    intro c hc
    rw [isNumeral, hc, Bool.true_or]
  obtain ⟨whole, fraction, e, sign, digits, hspan, hwhole, hfraction, he, hsign, _, hdigits⟩ :=
    exponent_cases hfind
  rw [hspan]
  simp only [List.mem_append, List.mem_cons]
  rintro c (hc | hc | rfl | hc | hc)
  · exact hdecimal c (hwhole c hc)
  · rcases hfraction c hc with rfl | hc
    · decide
    · exact hdecimal c hc
  · rcases he with rfl | rfl <;> decide
  · rcases hsign c hc with rfl | rfl <;> decide
  · exact hdecimal c (hdigits c hc)

theorem isLoud_of_isNumeral {c : Char} (hnumeral : isNumeral c = true) : isLoud c = false :=
  isLoud_eq_false (List.all_iff_forall_prop.mp (by decide)) hnumeral

theorem exponent_findsQuiet : Finder.FindsQuiet exponent := by
  intro before c cs n hfind
  have hend := headIs_reverse_of_exponent hfind
  have hdecimal : ∀ t : Text, headIs isDecimal t = true → headIs (· == '*') t = false := by
    intro t ht
    cases t with
    | nil => rfl
    | cons d ds =>
        rw [headIs_cons] at ht ⊢
        rw [beq_eq_false_iff_ne]
        rintro rfl
        exact absurd ht (by decide)
  have hstart : isDecimal c = true := by
    cases hc : isDecimal c with
    | true => rfl
    | false =>
        rw [exponent_eq_zero_of_not_decimal hc] at hfind
        cases hfind
  refine ⟨by simp, fun d hd => ?_, hdecimal (c :: cs.take n) hstart, hdecimal _ hend⟩
  exact isLoud_of_isNumeral (isNumeral_of_exponent hfind d hd)

/-- An argument list has type list characters only. -/
theorem isTypeListChar_of_typeList {before rest : Text} {n : Nat}
    (hfind : typeList before rest = n + 1) : ∀ c ∈ rest.take (n + 1), isTypeListChar c = true := by
  obtain ⟨inner, others, rfl, rfl, hinner⟩ := typeList_cases hfind
  have hspan : ('<' :: (inner ++ '>' :: others)).take (inner.length + 1 + 1) =
      '<' :: (inner ++ ['>']) := by
    simp [List.take_length_add_append]
  rw [hspan]
  simp only [List.mem_cons, List.mem_append, List.not_mem_nil, or_false]
  rintro c (rfl | hc | rfl)
  · decide
  · exact hinner c hc
  · decide

theorem typeList_findsQuiet : Finder.FindsQuiet typeList := by
  intro before c cs n hfind
  have hquiet := isTypeListChar_of_typeList hfind
  obtain ⟨inner, others, hsplit, rfl, _⟩ := typeList_cases hfind
  obtain ⟨rfl, rfl⟩ := List.cons.inj hsplit
  have hspan : '<' :: (inner ++ '>' :: others).take (inner.length + 1) = '<' :: (inner ++ ['>']) := by
    simp [List.take_length_add_append]
  rw [List.take_succ_cons, hspan] at hquiet
  rw [hspan]
  exact ⟨by simp, fun d hd => isLoud_of_isTypeListChar (hquiet d hd), by simp, by simp⟩

theorem shift_findsQuiet : Finder.FindsQuiet shift := by
  have hoperators : ∀ operator ∈ shiftOperators, operator ≠ [] ∧
      operator.all (!isLoud ·) = true ∧ headIs (· == '*') operator = false ∧
      headIs (· == '*') operator.reverse = false := by decide
  intro before c cs n hfind
  obtain ⟨hne, hquiet, hstart, hend⟩ := hoperators _ (shift_cases hfind)
  exact ⟨hne, by simpa using hquiet, hstart, hend⟩

/-- After the first run all finders of code are of this kind. -/
theorem finders_findQuiet (hcode : family = .javascript ∨ family = .cFamily)
    {language : Option Text} {find : Finder} (hfind : find ∈ (finders family language).tail) :
    find.FindsQuiet := by
  have hfamily : family ≠ .css ∧ family ≠ .html := by rcases hcode with rfl | rfl <;> decide
  simp only [finders, hfamily.1, hfamily.2, if_false, or_self, List.tail_cons, List.nil_append,
    List.mem_append, List.mem_singleton] at hfind
  rcases hfind with (rfl | hfind) | hfind
  · exact exponent_findsQuiet
  · split at hfind
    · exact List.mem_singleton.mp hfind ▸ typeList_findsQuiet
    · cases hfind
  · split at hfind
    · exact List.mem_singleton.mp hfind ▸ shift_findsQuiet
    · cases hfind

/-- The literals of code are of the three kinds. -/
theorem reads_mask (hcode : family = .javascript ∨ family = .cFamily) (language : Option Text)
    {code : Text} (hplain : markOpen ∉ code)
    (hends : mayEnd = false → EndsOutside family none code) :
    Reads family mayEnd (mask family language code).literals (mask family language code).text :=
  mask_induct_quoted (motive := fun masked => Reads family mayEnd masked.literals masked.text)
    (reads_quoted (quotedRun family [] code) hplain hends [])
    fun _ hfind _ hreads => (finders_findQuiet hcode hfind).reads
      (finders_respect (List.mem_of_mem_tail hfind)) hreads []

/-! ### Pieces of these kinds -/

/-- Pieces whose spans are of these kinds. -/
inductive Legible (family : Family) (mayEnd : Bool) (spans : Text → Text) : List Piece → Prop
  | nil : Legible family mayEnd spans []
  | char {c : Char} {ps : List Piece} (hquote : c ∉ family.quotes)
      (hrest : Legible family mayEnd spans ps) : Legible family mayEnd spans (.char c :: ps)
  | closed {digits : Text} {ps : List Piece} (hspan : IsClosed family (spans digits))
      (hrest : Legible family mayEnd spans ps) : Legible family mayEnd spans (.mark digits :: ps)
  | quiet {digits : Text} {ps : List Piece} (hspan : IsQuiet (spans digits))
      (hrest : Legible family mayEnd spans ps) : Legible family mayEnd spans (.mark digits :: ps)
  | unclosed {digits : Text} (hspan : IsUnclosed family (spans digits)) (hend : mayEnd = true) :
      Legible family mayEnd spans [.mark digits]

theorem spanOf_of_plain (hlimit : literals.length ≤ numberLimit) {number : Nat} {span : Text}
    (hget : literals[number]? = some span) (hplain : markOpen ∉ span) :
    spanOf literals (Nat.toDigits 10 number) = span := by
  have hmark : Expands literals literals.length (mark number ++ []) (span ++ []) :=
    .mark (List.getElem?_eq_some_iff.mp hget).1 hget (.of_plain hplain) .nil
  rw [List.append_nil, List.append_nil] at hmark
  exact (spanOf_toDigits hlimit hmark).2

theorem Reads.legible (hlimit : literals.length ≤ numberLimit) {t : Text}
    (h : Reads family mayEnd literals t) :
    Legible family mayEnd (spanOf literals) (pieces t) := by
  induction h with
  | nil => exact .nil
  | char hc hquote _ ih =>
      rw [pieces_cons (markDigits?_cons_of_ne hc _)]
      exact .char hquote ih
  | closed hget hplain hspan _ ih =>
      rw [pieces_mark_append]
      exact .closed (by rwa [spanOf_of_plain hlimit hget hplain]) ih
  | quiet hget hspan _ ih =>
      rw [pieces_mark_append]
      exact .quiet (by rwa [spanOf_of_plain hlimit hget hspan.plain]) ih
  | @unclosed number span hget hplain hspan hend =>
      have hpieces := pieces_mark_append number []
      rw [List.append_nil] at hpieces
      rw [hpieces]
      exact .unclosed (by rwa [spanOf_of_plain hlimit hget hplain]) hend

variable {spans : Text → Text} {ps : List Piece}

theorem Legible.filter (h : Legible family mayEnd spans ps) :
    Legible family mayEnd spans (ps.filter Piece.isSolid) := by
  induction h with
  | nil => exact .nil
  | @char c ps hquote _ ih =>
      rw [List.filter_cons]
      split
      · exact .char hquote ih
      · exact ih
  | closed hspan _ ih => exact .closed hspan ih
  | quiet hspan _ ih => exact .quiet hspan ih
  | unclosed hspan hend => exact .unclosed hspan hend

/-- Blanks make no difference, but for those at the end. -/
theorem Legible.of_filter (h : Legible family mayEnd spans (ps.filter Piece.isSolid))
    (hlast : ∀ piece ∈ ps.getLast?, piece.isSolid = true) : Legible family mayEnd spans ps := by
  have hquotes : ∀ quote ∈ family.quotes, isBlank quote = false :=
    List.all_iff_forall_prop.mp (by cases family <;> decide)
  induction ps with
  | nil => exact .nil
  | cons piece ps ih =>
      have hlater : ∀ later ∈ ps.getLast?, later.isSolid = true := by
        intro later hmem
        refine hlast later ?_
        cases ps with
        | nil => cases hmem
        | cons next rest => rwa [List.getLast?_cons_cons]
      cases hsolid : piece.isSolid with
      | false =>
          rw [List.filter_cons_of_neg (by simp [hsolid])] at h
          cases piece with
          | mark digits => cases hsolid
          | char c =>
              refine .char (fun hquote => ?_) (ih h hlater)
              simp [Piece.isSolid, hquotes c hquote] at hsolid
      | true =>
          rw [List.filter_cons_of_pos hsolid] at h
          generalize hrest : ps.filter Piece.isSolid = rest at h ih
          cases h with
          | char hquote h => exact .char hquote (ih h hlater)
          | closed hspan h => exact .closed hspan (ih h hlater)
          | quiet hspan h => exact .quiet hspan (ih h hlater)
          | unclosed hspan hend =>
              obtain rfl : ps = [] := by
                cases hps : ps.getLast? with
                | none => exact List.getLast?_eq_none_iff.mp hps
                | some later =>
                    have hmem : later ∈ ps.filter Piece.isSolid := List.mem_filter.mpr
                      ⟨List.mem_of_getLast? hps, hlater later (by simp [hps])⟩
                    rw [hrest] at hmem
                    cases hmem
              exact .unclosed hspan hend

/-- The last piece of a text without a blank at its end is solid. -/
theorem isSolid_of_getLast? {t : Text} (hlast : headIs isBlank t.reverse = false) :
    ∀ piece ∈ (pieces t).getLast?, piece.isSolid = true := by
  intro piece hpiece
  obtain ⟨front, hfront⟩ := List.getLast?_eq_some_iff.mp hpiece
  have htext := text_pieces t
  rw [hfront, List.flatMap_append] at htext
  cases piece with
  | mark digits => rfl
  | char c =>
      rw [← htext] at hlast
      simpa [Piece.text, Piece.isSolid] using hlast

/-- A masked text of these kinds, and the same text with other blanks in it. -/
structure Spaced (family : Family) (mayEnd : Bool) (spans : Text → Text) (masked spaced : Text) :
    Prop where
  legible_masked : Legible family mayEnd spans (pieces masked)
  legible_spaced : Legible family mayEnd spans (pieces spaced)
  solid : solidPieces spaced = solidPieces masked
  trimmed_masked : Text.Trimmed masked
  trimmed_spaced : Text.Trimmed spaced

end SourceLayout.Literal

namespace SourceLayout.Line

open Literal (mask markOpen numberLimit Piece pieces solidPieces spanOf EndsOutside Spaced)

/-- Tidied code is made of the pieces that the code is made of. -/
theorem spaced_mask {family : Family} {mayEnd : Bool}
    (hcode : family = .javascript ∨ family = .cFamily) (language : Option Text) {code : Text}
    (htrim : Text.Trimmed code) (hplain : markOpen ∉ code) (hlength : code.length ≤ numberLimit)
    (hends : mayEnd = false → EndsOutside family none code) :
    let masked := mask family language code
    let spaced := Spacing.applyAll (Spacing.rules family language) masked.text
    Spaced family mayEnd (spanOf masked.literals) masked.text spaced ∧
      code = (pieces masked.text).flatMap (Piece.fill (spanOf masked.literals)) ∧
      tidyCode family language code =
        .ok ((pieces spaced).flatMap (Piece.fill (spanOf masked.literals))) := by
  have hstands := Literal.stands_mask family language hplain
  have hreads := Literal.reads_mask hcode language hplain hends
  have htrimmed := Literal.trimmed_mask family language htrim
  rw [tidyCode_eq_restore, htrim.trim_eq]
  generalize mask family language code = masked at hstands hreads htrimmed
  have hlimit : masked.literals.length ≤ numberLimit :=
    Nat.le_trans hstands.literals_length_le hlength
  obtain ⟨hfilled, hfill⟩ := hstands.1.fill hlimit (Nat.le_refl _)
  have hsolid := Spacing.solidPieces_applyAll (List.prefix_refl (Spacing.rules family language))
    masked.text
  have hspaced := Literal.Expands.of_filled (Literal.forall_filled_congr hsolid.symm hfilled)
  have hlegible := hreads.legible hlimit
  have htrimmed' := Spacing.trimmed_rules family language masked.text
  refine ⟨⟨hlegible, ?_, hsolid, htrimmed, htrimmed'⟩, hfill.symm, hspaced.restore_eq hlimit⟩
  refine .of_filter ?_ (Literal.isSolid_of_getLast? htrimmed'.last)
  have hkept := hlegible.filter
  rwa [← solidPieces, ← hsolid] at hkept

end SourceLayout.Line
