import SourceLayout.Proofs.Depth
import SourceLayout.Proofs.Literal.Markers

/-!
# The braces of a line

The braces that count can be told without masking: scan the line as for comments and keep the braces
outside of literals. In a language where the character before a quote plays no part, the literals
of tidied code are the ones that were cut out before the rules were applied, and the comment is found
where it was put; so tidying leaves the braces of a line as they are.
-/

namespace SourceLayout.Indent

open Comment (slash signs startFrom start? Split split isBlockLine squeezeRuns)
open Literal (Closes Finder IsClosed IsUnclosed IsQuiet Legible Piece bareCode markOpen mask
  numberLimit pieces quoted)
open Spacing (Apart)

variable {family : Family}

/-- The braces outside of literals and before the first comment, scanning inside the literal that
`inside` ends, if any. -/
def bracesFrom (family : Family) (previous inside : Option Char) : Text → Text
  | [] => []
  | c :: cs =>
      match inside with
      | some stop =>
          let inside' := if c = stop ∧ previous ≠ some '\\' then none else some stop
          bracesFrom family (some c) inside' cs
      | none =>
          if family.opensComment (c :: cs) then []
          else braces [c] ++ bracesFrom family (some c) (family.literalEnd? previous c) cs

theorem bracesFrom_of_opens {t : Text} (hopens : family.opensComment t = true)
    (previous : Option Char) : bracesFrom family previous none t = [] := by
  cases t with
  | nil => rfl
  | cons c cs => simp [bracesFrom, hopens]

theorem bracesFrom_cons {c : Char} {cs : Text} (hopens : family.opensComment (c :: cs) = false)
    (previous : Option Char) : bracesFrom family previous none (c :: cs) =
      braces [c] ++ bracesFrom family (some c) (family.literalEnd? previous c) cs := by
  simp [bracesFrom, hopens]

/-! ### Literals -/

theorem bracesFrom_closes {stop previous : Char} {inner : Text} (h : Closes stop previous inner)
    (rest : Text) : bracesFrom family (some previous) (some stop) (inner ++ rest) =
      bracesFrom family (some stop) none rest := by
  induction h with
  | stop hprevious => simp [bracesFrom, hprevious]
  | pass hpass _ ih => simp [bracesFrom, hpass, ih]

theorem bracesFrom_open {stop previous : Char} {t : Text}
    (hopen : ∀ front, front <+: t → ¬Closes stop previous front) :
    bracesFrom family (some previous) (some stop) t = [] := by
  induction t generalizing previous with
  | nil => rfl
  | cons c cs ih =>
      have hpass : ¬(c = stop ∧ previous ≠ '\\') := by
        rintro ⟨rfl, hprevious⟩
        exact hopen [c] (by simp) (.stop hprevious)
      have hrest := ih fun front hfront hcloses =>
        hopen (c :: front) (List.cons_prefix_cons.mpr ⟨rfl, hfront⟩) (.pass hpass hcloses)
      simpa [bracesFrom, hpass] using hrest

theorem bracesFrom_letters {flags : Text} (hflags : flags.all isLetter = true) (before rest : Text) :
    bracesFrom family before.head? none (flags ++ rest) =
      bracesFrom family (flags.reverse ++ before).head? none rest := by
  induction flags generalizing before with
  | nil => rfl
  | cons c cs ih =>
      rw [List.all_cons, Bool.and_eq_true] at hflags
      have hrest := ih hflags.2 (c :: before)
      have hc : braces [c] = [] := braces_eq_nil (by
        simpa using isBrace_eq_false (by decide) (by decide +kernel) hflags.1)
      rw [List.cons_append, bracesFrom_cons (Comment.not_opensComment_of_isLetter hflags.1 family _),
        Comment.literalEnd?_of_isLetter hflags.1, hc, List.nil_append]
      simpa using hrest

theorem braces_opener {previous : Option Char} {opener stop : Char}
    (hend : family.literalEnd? previous opener = some stop) : braces [opener] = [] := by
  have hnone : ∀ c ∈ ['{', '}'], family.literalEnd? previous c = none := by
    cases family <;> simp [Family.literalEnd?, Family.quotes]
  have hbrace : isBrace opener = false :=
    isBrace_eq_false (p := fun c => (family.literalEnd? previous c).isSome)
      (by simp [hnone]) (by simp [hnone]) (by simp [hend])
  exact braces_eq_nil (by simpa using hbrace)

/-- No brace of a literal that closes counts. -/
theorem bracesFrom_literal {before inner flags : Text} {opener stop : Char} {others : Text}
    (hopens : family.opensComment (opener :: (inner ++ flags) ++ others) = false)
    (hend : family.literalEnd? before.head? opener = some stop) (hcloses : Closes stop opener inner)
    (hletters : flags.all isLetter = true) :
    bracesFrom family before.head? none (opener :: (inner ++ flags) ++ others) =
      bracesFrom family ((opener :: (inner ++ flags)).reverse ++ before).head? none others := by
  have hlast : some stop = ((opener :: inner).reverse ++ before).head? := by
    simp [hcloses.getLast?]
  rw [List.cons_append] at hopens ⊢
  rw [bracesFrom_cons hopens, braces_opener hend, List.nil_append, hend, List.append_assoc,
    bracesFrom_closes hcloses, hlast, bracesFrom_letters hletters]
  simp

/-! ### The masked text -/

theorem braces_mark (number : Nat) : braces (Literal.mark number) = [] :=
  braces_eq_nil fun c hc =>
    isBrace_eq_false (p := fun c => !Literal.isForeign c) (by decide) (by decide +kernel)
      (by simp [Literal.isForeign_of_mem_mark hc])

theorem braces_span {span : Text} (h : IsQuiet span) : braces span = [] :=
  braces_eq_nil fun c hc =>
    isBrace_eq_false (p := fun c => !Literal.isLoud c) (by decide) (by decide +kernel)
      (by simp [h.quiet c hc])

theorem braces_quoted {before t : Text} (hrun : Literal.QuotedRun family before t)
    (hnone : startFrom family before.head? none t = none) (literals : List Text) :
    braces ((quoted family).maskFrom before 0 t literals).text =
      bracesFrom family before.head? none t := by
  induction hrun generalizing literals with
  | nil => rfl
  | @char before cs c hend _ ih =>
      have hopens := Comment.opensComment_of_startFrom_none hnone
      have hlater : startFrom family (c :: before).head? none cs = none := by
        simpa [startFrom, hopens, hend] using hnone
      have hrest := ih hlater literals
      rw [List.head?_cons] at hrest
      rw [Finder.maskFrom_cons (Literal.quoted_eq_zero_of_none hend), bracesFrom_cons hopens, hend,
        ← hrest]
      exact braces_cons c _
  | closed hend hcloses hletters _ hfind _ ih =>
      have hopens := Comment.opensComment_of_startFrom_none hnone
      rw [Comment.startFrom_literal hopens hend hcloses hletters, Option.map_eq_none_iff] at hnone
      rw [Finder.maskFrom_found (by simp) hfind, Literal.Masked.prepend_text, braces_append,
        braces_mark, List.nil_append, bracesFrom_literal hopens hend hcloses hletters]
      exact ih hnone _
  | unclosed hend hnever hfind =>
      have hopens := Comment.opensComment_of_startFrom_none hnone
      rw [Finder.maskFrom_found (by simp) hfind, Literal.Masked.prepend_text, braces_append,
        braces_mark, List.nil_append, List.append_nil] at *
      rw [bracesFrom_cons hopens, braces_opener hend, List.nil_append, hend, bracesFrom_open hnever]
      rfl

/-- Quiet spans hold no braces. -/
theorem braces_maskFrom {find : Finder} (hquiet : find.FindsQuiet) (before t : Text)
    (literals : List Text) : braces (find.maskFrom before 0 t literals).text = braces t := by
  induction before, t using Finder.scan_induct find generalizing literals with
  | done before => rfl
  | passed before c cs hfind ih =>
      rw [Finder.maskFrom_cons hfind, braces_cons c cs, ← ih literals]
      exact braces_cons c _
  | found before c cs n hfind ih =>
      have hspan := braces_span (hquiet before c cs n hfind)
      have hsplit : c :: cs = (c :: cs.take n) ++ cs.drop n := by simp
      rw [Finder.maskFrom_span hfind, Literal.Masked.prepend_text, braces_append, braces_mark, ih,
        hsplit, braces_append, hspan]

theorem braces_mask (hcode : family = .javascript ∨ family = .cFamily) (language : Option Text)
    {code : Text} (hnone : start? family code = none) :
    braces (mask family language code).text = bracesFrom family none none code := by
  refine Literal.mask_induct_quoted (motive := fun masked =>
    braces masked.text = bracesFrom family none none code)
    (braces_quoted (Literal.quotedRun family [] code) hnone []) ?_
  intro find hfind masked hmasked
  exact (braces_maskFrom (Literal.finders_findQuiet hcode hfind) [] masked.text _).trans hmasked

/-! ### Up to the comment -/

theorem bracesFrom_take {previous inside : Option Char} {t : Text} {place : Nat}
    (hstart : startFrom family previous inside t = some place) :
    bracesFrom family previous inside (t.take place) = bracesFrom family previous inside t := by
  induction t generalizing previous inside place with
  | nil => simp [startFrom] at hstart
  | cons c cs ih =>
      have hlater : ∀ inside', (startFrom family (some c) inside' cs).map (· + 1) = some place →
          ∃ earlier, place = earlier + 1 ∧
            bracesFrom family (some c) inside' (cs.take earlier) =
              bracesFrom family (some c) inside' cs := by
        intro inside' hmap
        obtain ⟨earlier, hearlier, hplace⟩ := Option.map_eq_some_iff.mp hmap
        exact ⟨earlier, hplace.symm, ih hearlier⟩
      cases inside with
      | some stop =>
          obtain ⟨earlier, rfl, hrest⟩ := hlater _ hstart
          exact hrest
      | none =>
          cases hopens : family.opensComment (c :: cs) with
          | true =>
              obtain rfl : 0 = place := by simpa [startFrom, hopens] using hstart
              rw [bracesFrom_of_opens hopens]
              rfl
          | false =>
              have hfront := Comment.startFrom_of_prefix hstart List.prefix_rfl
              obtain ⟨earlier, rfl, hrest⟩ := hlater _ (by simpa [startFrom, hopens] using hstart)
              rw [List.take_succ_cons] at hfront ⊢
              rw [bracesFrom_cons (Comment.opensComment_of_startFrom_none hfront),
                bracesFrom_cons hopens, hrest]

/-- A blank ends no literal and starts neither one nor a comment. -/
theorem bracesFrom_blank {previous inside : Option Char} {c : Char} (hblank : isBlank c = true)
    (hinside : ∀ stop ∈ inside, isBlank stop = false) (cs : Text) :
    bracesFrom family previous inside (c :: cs) = bracesFrom family (some c) inside cs := by
  cases inside with
  | some stop =>
      have hne : c ≠ stop := by
        rintro rfl
        simp [hinside c rfl] at hblank
      simp [bracesFrom, hne]
  | none =>
      have hopens : family.opensComment (c :: cs) = false := by
        rw [Bool.eq_false_iff, Ne, Comment.opensComment_iff]
        rintro ⟨marker, hmarker, hstarts⟩
        have hmarkers : ∀ marker ∈ Comment.markers family,
            marker ≠ [] ∧ headIs isBlank marker = false := by cases family <;> decide
        obtain ⟨hne, hhead⟩ := hmarkers marker hmarker
        obtain ⟨rest, hrest⟩ := hstarts
        rw [← Text.headIs_append hne rest, hrest, headIs_cons, hblank] at hhead
        cases hhead
      have hend : family.literalEnd? previous c = none := by
        cases hend : family.literalEnd? previous c with
        | none => rfl
        | some stop => simp [(Literal.isBlank_of_literalEnd? hend).1] at hblank
      have hbrace : braces [c] = [] :=
        braces_eq_nil (by simpa using isBrace_eq_false (by decide) (by decide) hblank)
      rw [bracesFrom_cons hopens, hend, hbrace, List.nil_append]

theorem bracesFrom_congr_previous {previous previous' : Option Char}
    (hescape : previous = some '\\' ↔ previous' = some '\\')
    (hparen : previous = some '(' ↔ previous' = some '(') (inside : Option Char) (t : Text) :
    bracesFrom family previous inside t = bracesFrom family previous' inside t := by
  cases t with
  | nil => rfl
  | cons c cs =>
      have hend : family.literalEnd? previous c = family.literalEnd? previous' c := by
        simp [Family.literalEnd?, hparen]
      cases inside <;> simp [bracesFrom, hescape, hend]

theorem bracesFrom_gap {gap : Text} (hgap : gap.all isBlank = true) (hne : gap ≠ [])
    {inside : Option Char} (hinside : ∀ stop ∈ inside, isBlank stop = false)
    (previous : Option Char) (t : Text) :
    bracesFrom family previous inside (gap ++ t) = bracesFrom family (some ' ') inside t := by
  induction gap generalizing previous with
  | nil => exact absurd rfl hne
  | cons b bs ih =>
      rw [List.all_cons, Bool.and_eq_true] at hgap
      rw [List.cons_append, bracesFrom_blank hgap.1 hinside]
      by_cases hbs : bs = []
      · subst hbs
        have hsign : ∀ c ∈ ['\\', '('], (some b = some c ↔ some ' ' = some c) := by
          intro c hc
          have hc : isBlank c = false ∧ ' ' ≠ c := by
            simp only [List.mem_cons, List.not_mem_nil, or_false] at hc
            rcases hc with rfl | rfl <;> decide
          have hb : b ≠ c := by
            rintro rfl
            simp [hc.1] at hgap
          simp [hb, hc.2]
        exact bracesFrom_congr_previous (hsign _ (by simp)) (hsign _ (by simp)) inside t
      · exact ih hgap.2 hbs (some b)

theorem bracesFrom_cons_congr (hcode : family = .javascript ∨ family = .cFamily)
    {inside : Option Char} (hinside : ∀ stop ∈ inside, isBlank stop = false) {c : Char}
    {t t' : Text} (hhead : headIs signs.has t = headIs signs.has t')
    (hrest : ∀ inside' : Option Char, (∀ stop ∈ inside', isBlank stop = false) →
      bracesFrom family (some c) inside' t = bracesFrom family (some c) inside' t')
    (previous : Option Char) :
    bracesFrom family previous inside (c :: t) = bracesFrom family previous inside (c :: t') := by
  cases inside with
  | some stop =>
      refine hrest _ fun later hlater => hinside later ?_
      split at hlater
      next => cases hlater
      next => exact hlater
  | none =>
      have hend : ∀ stop ∈ family.literalEnd? previous c, isBlank stop = false := fun stop hstop => by
        obtain ⟨hc, rfl⟩ := Literal.isBlank_of_literalEnd? hstop
        exact hc
      simp only [bracesFrom, Comment.opensComment_cons hcode, hhead, hrest _ hend]

theorem headIs_signs_of_blank {c : Char} (hblank : isBlank c = true) : signs.has c = false := by
  cases hsign : signs.has c with
  | false => rfl
  | true => simp [signs.isBlank_eq_false c hsign] at hblank

theorem bracesFrom_append_blanks (hcode : family = .javascript ∨ family = .cFamily)
    {gap : Text} (hgap : gap.all isBlank = true) {inside : Option Char}
    (hinside : ∀ stop ∈ inside, isBlank stop = false) (previous : Option Char) (t : Text) :
    bracesFrom family previous inside (t ++ gap) = bracesFrom family previous inside t := by
  induction t generalizing previous inside with
  | nil =>
      by_cases hne : gap = []
      · rw [hne]
        rfl
      · rw [List.nil_append, ← List.append_nil gap, bracesFrom_gap hgap hne hinside]
        rfl
  | cons c cs ih =>
      refine bracesFrom_cons_congr hcode hinside ?_ (fun inside' hinside' => ih hinside' _) previous
      cases cs with
      | nil => exact Text.headIs_of_blanks hgap
      | cons d ds => rfl

/-- The braces of a line are those of its code. -/
theorem bracesFrom_split_code (hcode : family = .javascript ∨ family = .cFamily) (line : Text) :
    bracesFrom family none none (split family line).code = bracesFrom family none none line := by
  rw [split]
  split
  next => rfl
  next place hstart =>
      obtain ⟨gap, hgap, hsplit⟩ := Text.trimRight_append (line.take place)
      rw [← bracesFrom_take hstart, ← bracesFrom_append_blanks hcode hgap (by simp), hsplit]

/-- The braces that count are the ones outside of literals and comments. -/
theorem braces_bareCode (hcode : family = .javascript ∨ family = .cFamily) (line : Text) :
    braces (bareCode family line) = bracesFrom family none none line := by
  rw [bareCode, braces_mask hcode none (Comment.start?_split_code family line),
    bracesFrom_split_code hcode]

/-! ### Comment lines -/

theorem headIs_squeezeRuns {p : Char → Bool} (hp : ∀ c, isBlank c = true → p c = false) (t : Text) :
    headIs p (squeezeRuns t) = headIs p t := by
  fun_induction squeezeRuns t with
  | case1 | case2 | case6 => rfl
  | case3 c d hblanks e cs he ih =>
      rw [Bool.and_eq_true] at hblanks
      rw [ih, headIs_cons, headIs_cons, hp c hblanks.1, hp d hblanks.2]
  | case4 c d hblanks | case5 c d hblanks =>
      rw [Bool.and_eq_true] at hblanks
      rw [headIs_cons, headIs_cons, hp c hblanks.1, hp ' ' (by decide)]

theorem bracesFrom_squeezeRuns (hcode : family = .javascript ∨ family = .cFamily)
    {inside : Option Char} (hinside : ∀ stop ∈ inside, isBlank stop = false)
    (previous : Option Char) (t : Text) :
    bracesFrom family previous inside (squeezeRuns t) = bracesFrom family previous inside t := by
  have hgap : ∀ {gap gap' : Text}, gap.all isBlank = true → gap ≠ [] → gap'.all isBlank = true →
      gap' ≠ [] → ∀ {inside : Option Char}, (∀ stop ∈ inside, isBlank stop = false) →
      ∀ previous rest, bracesFrom family previous inside (gap ++ rest) =
        bracesFrom family previous inside (gap' ++ rest) :=
    fun hgap hne hgap' hne' _ hinside previous rest => by
      rw [bracesFrom_gap hgap hne hinside, bracesFrom_gap hgap' hne' hinside]
  fun_induction squeezeRuns t generalizing previous inside with
  | case1 | case2 => rfl
  | case3 c d hblanks e cs he ih =>
      rw [Bool.and_eq_true] at hblanks
      rw [ih hinside]
      exact @hgap [d] [c, d] (by simp [hblanks.2]) (by simp) (by simp [hblanks])
        (by simp) _ hinside previous (e :: cs)
  | case4 c d hblanks e cs he ih =>
      rw [Bool.and_eq_true] at hblanks
      rw [bracesFrom_blank (by decide) hinside, ih hinside]
      exact (@bracesFrom_gap _ [c, d] (by simp [hblanks]) (by simp) _ hinside previous _).symm
  | case5 c d hblanks =>
      rw [Bool.and_eq_true] at hblanks
      exact @hgap [' '] [c, d] (by decide) (by simp) (by simp [hblanks]) (by simp)
        _ hinside previous []
  | case6 c d cs hblanks ih =>
      exact bracesFrom_cons_congr hcode hinside
        (headIs_squeezeRuns (fun _ => headIs_signs_of_blank) (d :: cs))
        (fun inside' hinside' => ih hinside' _) previous

theorem bracesFrom_normalize (hcode : family = .javascript ∨ family = .cFamily) {line : Text}
    (hline : Text.Trimmed line) (previous : Option Char) :
    bracesFrom family previous none (Comment.normalize line) = bracesFrom family previous none line := by
  have hopens : ∀ rest, family.opensComment ('/' :: '/' :: rest) = true := by
    rcases hcode with rfl | rfl <;> exact fun _ => rfl
  have hone : ∀ c : Char, isBlank c = true → ∀ cs : Text, ∃ gap : Text,
      gap.all isBlank = true ∧ gap ≠ [] ∧ c :: cs = gap ++ Text.trimLeft cs := fun c hc cs =>
    ⟨c :: cs.takeWhile isBlank, by simp [hc], by simp, by
      rw [List.cons_append, Text.trimLeft, List.takeWhile_append_dropWhile]⟩
  rw [Comment.normalize, bracesFrom_squeezeRuns hcode (by simp), hline.trim_eq]
  split
  next c cs =>
      split
      next => rw [bracesFrom_of_opens (hopens _), bracesFrom_of_opens (hopens _)]
      next => rfl
  next _ c cs =>
      split
      next hblank =>
          obtain ⟨gap, hgap, hne, hsplit⟩ := hone c hblank cs
          refine bracesFrom_cons_congr hcode (by simp) ?_ (fun inside hinside => ?_) previous
          · rw [headIs_cons, headIs_cons, headIs_signs_of_blank hblank,
              headIs_signs_of_blank (by decide)]
          · rw [hsplit, bracesFrom_gap hgap hne hinside, bracesFrom_blank (by decide) hinside]
      next => rfl
  next => rfl

/-! ### Tidied code -/

section Fill

variable {mayEnd : Bool} {spans : Text → Text} {ps : List Piece}

/-- In the C family the character before a quote plays no part. -/
theorem bracesFrom_cFamily (previous : Option Char) (t : Text) :
    bracesFrom .cFamily previous none t = bracesFrom .cFamily none none t := by
  cases t with
  | nil => rfl
  | cons c cs =>
      have hend : Family.cFamily.literalEnd? previous c = Family.cFamily.literalEnd? none c := by
        rw [Literal.literalEnd?_of_ne (by decide), Literal.literalEnd?_of_ne (by decide)]
      simp only [bracesFrom, hend]

theorem quotes_of_literalEnd? {previous : Option Char} {opener stop : Char}
    (hend : Family.cFamily.literalEnd? previous opener = some stop) :
    opener ∈ Family.cFamily.quotes :=
  (Literal.eq_slash_or_quote hend).2.resolve_left fun hslash => nomatch hslash.2

theorem opensComment_quote {opener : Char} (hquote : opener ∈ Family.cFamily.quotes) (t : Text) :
    Family.cFamily.opensComment (opener :: t) = false := by
  have hslash : ∀ c ∈ Family.cFamily.quotes, slash.has c = false :=
    List.all_iff_forall_prop.mp (by decide)
  rw [Comment.opensComment_cons (.inr rfl), hslash opener hquote, Bool.false_and]

/-- What a span of the C family starts with is no sign of a comment. -/
theorem headIs_signs_of_opener {previous : Option Char} {opener stop : Char}
    (hend : Family.cFamily.literalEnd? previous opener = some stop) : signs.has opener = false := by
  have hsigns : ∀ c ∈ Family.cFamily.quotes, signs.has c = false :=
    List.all_iff_forall_prop.mp (by decide)
  exact hsigns opener (quotes_of_literalEnd? hend)

theorem headIs_fill (h : Legible .cFamily mayEnd spans ps) {tail : Text}
    (htail : headIs signs.has tail = false) :
    headIs signs.has (ps.flatMap (Piece.fill spans) ++ tail) =
      headIs signs.has (ps.flatMap Piece.text) := by
  have hmark : signs.has markOpen = false := Comment.signs_markOpen
  cases h with
  | nil => simpa using htail
  | char => rfl
  | closed hspan =>
      obtain ⟨_, opener, stop, inner, flags, hspan, hend, _⟩ := hspan
      simp [Piece.fill, Piece.text, hspan, headIs_signs_of_opener hend, hmark]
  | unclosed hspan =>
      obtain ⟨_, opener, stop, inner, hspan, hend, _⟩ := hspan
      simp [Piece.fill, Piece.text, hspan, headIs_signs_of_opener hend, hmark]
  | @quiet digits ps hspan =>
      obtain ⟨hne, hquiet, hhead, _⟩ := hspan
      rw [List.flatMap_cons, List.flatMap_cons, Piece.fill, List.append_assoc, Text.headIs_append hne,
        Piece.text, List.cons_append, List.cons_append, headIs_cons, hmark]
      cases hspan : spans digits with
      | nil => rfl
      | cons c cs =>
          rw [hspan] at hquiet hhead
          have hslash : c ≠ '/' := by
            rintro rfl
            exact absurd (hquiet '/' List.mem_cons_self) (by decide)
          rw [headIs_cons, Bool.eq_false_iff, Ne, Comment.signs_iff]
          simpa [hslash] using hhead

theorem bracesFrom_quiet {span : Text} (hquiet : ∀ c ∈ span, Literal.isLoud c = false) (rest : Text) :
    bracesFrom .cFamily none none (span ++ rest) = bracesFrom .cFamily none none rest := by
  induction span with
  | nil => rfl
  | cons c cs ih =>
      obtain ⟨hc, hcs⟩ := List.forall_mem_cons.mp hquiet
      have hloud : ∀ d ∈ '/' :: Family.cFamily.quotes, Literal.isLoud d = true :=
        List.all_iff_forall_prop.mp (by decide)
      have hother : c ∉ '/' :: Family.cFamily.quotes := fun hmem => by simp [hloud c hmem] at hc
      rw [List.mem_cons, not_or] at hother
      have hopens : Family.cFamily.opensComment (c :: (cs ++ rest)) = false := by
        have hslash : slash.has c = false := by
          simpa using mt Comment.slash_iff.mp hother.1
        rw [Comment.opensComment_cons (.inr rfl), hslash, Bool.false_and]
      have hend : Family.cFamily.literalEnd? none c = none := by
        rw [Literal.literalEnd?_of_ne (by decide), if_neg hother.2]
      have hbrace : braces [c] = [] := braces_eq_nil (by
        simpa using isBrace_eq_false (p := fun c => !Literal.isLoud c) (by decide)
          (by decide) (by simp [hc]))
      rw [List.cons_append, bracesFrom_cons hopens, hend, hbrace, List.nil_append,
        bracesFrom_cFamily, ih hcs]

/-- In a text made of pieces the braces that count are those between the spans, if no comment starts
there. -/
theorem bracesFrom_fill (h : Legible .cFamily mayEnd spans ps)
    (hapart : Apart slash signs (ps.flatMap Piece.text)) {tail : Text}
    (hmay : mayEnd = true → tail = []) (hhead : headIs signs.has tail = false)
    (htail : bracesFrom .cFamily none none tail = []) :
    bracesFrom .cFamily none none (ps.flatMap (Piece.fill spans) ++ tail) =
      braces (ps.flatMap (Piece.fill fun _ => [])) := by
  induction h with
  | nil => exact htail
  | @char c ps hquote hrest ih =>
      rw [List.flatMap_cons] at hapart
      have hnext := ih (hapart.of_infix (List.suffix_append _ _).isInfix)
      have hopens : Family.cFamily.opensComment
          (c :: (ps.flatMap (Piece.fill spans) ++ tail)) = false := by
        rw [Comment.opensComment_cons (.inr rfl), headIs_fill hrest hhead, Bool.eq_false_iff]
        intro hboth
        rw [Bool.and_eq_true] at hboth
        have hnone : headIs signs.has (ps.flatMap Piece.text) = false :=
          hapart.headIs_eq_false hboth.1
        simp [hnone] at hboth
      have hend : Family.cFamily.literalEnd? none c = none := by
        rw [Literal.literalEnd?_of_ne (by decide), if_neg hquote]
      rw [List.flatMap_cons, List.flatMap_cons, List.append_assoc, Piece.fill, List.singleton_append,
        bracesFrom_cons hopens, hend, bracesFrom_cFamily, hnext, Piece.fill, braces_append]
  | @closed digits ps hspan hrest ih =>
      rw [List.flatMap_cons] at hapart
      have hnext := ih (hapart.of_infix (List.suffix_append _ _).isInfix)
      obtain ⟨_, opener, stop, inner, flags, hspan, hend, hcloses, hletters, _⟩ := hspan
      have hopens := opensComment_quote (quotes_of_literalEnd? hend)
        (inner ++ flags ++ (ps.flatMap (Piece.fill spans) ++ tail))
      rw [Literal.literalEnd?_of_ne (by decide),
        ← Literal.literalEnd?_of_ne (by decide) none] at hend
      have hliteral := @bracesFrom_literal .cFamily [] inner flags opener stop _ hopens hend hcloses
        hletters
      rw [List.head?_nil] at hliteral
      rw [List.flatMap_cons, List.flatMap_cons, List.append_assoc, Piece.fill, hspan, hliteral,
        bracesFrom_cFamily, hnext]
      rfl
  | @quiet digits ps hspan hrest ih =>
      rw [List.flatMap_cons] at hapart
      have hnext := ih (hapart.of_infix (List.suffix_append _ _).isInfix)
      rw [List.flatMap_cons, List.flatMap_cons, List.append_assoc, Piece.fill,
        bracesFrom_quiet hspan.quiet, hnext]
      rfl
  | @unclosed digits hspan hend =>
      obtain ⟨_, opener, stop, inner, hspan, hliteral, hnever⟩ := hspan
      have hquote := quotes_of_literalEnd? hliteral
      rw [hmay hend, List.append_nil, List.flatMap_singleton, Piece.fill, hspan,
        bracesFrom_cons (opensComment_quote hquote inner), braces_opener hliteral]
      rw [Literal.literalEnd?_of_ne (by decide)] at hliteral
      rw [Literal.literalEnd?_of_ne (by decide), hliteral, bracesFrom_open hnever]
      rfl

/-- Blanks hold no braces. -/
theorem braces_filter_solid (spans : Text → Text) (ps : List Piece) :
    braces ((ps.filter Piece.isSolid).flatMap (Piece.fill spans)) =
      braces (ps.flatMap (Piece.fill spans)) := by
  induction ps with
  | nil => rfl
  | cons piece ps ih =>
      cases hsolid : piece.isSolid with
      | true =>
          rw [List.filter_cons_of_pos hsolid, List.flatMap_cons, List.flatMap_cons, braces_append,
            braces_append, ih]
      | false =>
          rw [List.filter_cons_of_neg (by simp [hsolid]), List.flatMap_cons, braces_append, ih]
          cases piece with
          | mark digits => cases hsolid
          | char c =>
              have hblank : isBlank c = true := by simpa [Piece.isSolid] using hsolid
              have hnone : braces [c] = [] :=
                braces_eq_nil (by simpa using isBrace_eq_false (by decide) (by decide) hblank)
              rw [Piece.fill, hnone, List.nil_append]

end Fill

/-! ### Tidied lines -/

theorem bracesFrom_trim (hcode : family = .javascript ∨ family = .cFamily) (line : Text) :
    bracesFrom family none none line.trim = bracesFrom family none none line := by
  obtain ⟨gap, hgap, hright⟩ := Text.trimRight_append line.trimLeft
  rw [Text.trim, ← bracesFrom_append_blanks hcode hgap (by simp) none line.trimLeft.trimRight, hright]
  have hsplit : line.takeWhile isBlank ++ line.trimLeft = line := List.takeWhile_append_dropWhile
  by_cases hne : line.takeWhile isBlank = []
  · rw [hne, List.nil_append] at hsplit
    rw [hsplit]
  · have hleft := @bracesFrom_gap family _ List.all_takeWhile hne none (by simp) none line.trimLeft
    rw [hsplit] at hleft
    rw [hleft]
    exact bracesFrom_congr_previous (by simp) (by simp) none _

theorem exists_bracesFrom_tidyCode (language : Option Text) {line : Text}
    (hline : Text.Trimmed line) (hplain : markOpen ∉ line) (hlength : line.length ≤ numberLimit) :
    ∃ out, Line.tidyCode .cFamily language (split .cFamily line).code = .ok out ∧
      bracesFrom .cFamily none none (Line.assemble out (split .cFamily line).comment) =
        bracesFrom .cFamily none none line := by
  have hnone := Comment.start?_split_code .cFamily line
  obtain ⟨hspaced, hcode, htidy⟩ := Line.spaced_mask_split (.inr rfl) language hline hplain hlength
  have hapart := Comment.apart_mask (.inr rfl) language hnone
  have hapart' := Spacing.apart_signs (.inr rfl) language
    (mask .cFamily language (split .cFamily line).code).text
  generalize mask .cFamily language (split .cFamily line).code = masked at *
  generalize Spacing.applyAll (Spacing.rules .cFamily language) masked.text = spaced at *
  generalize Literal.spanOf masked.literals = spans at *
  rw [← Literal.text_pieces masked.text] at hapart
  rw [← Literal.text_pieces spaced] at hapart'
  have hbraces : braces ((pieces spaced).flatMap (Piece.fill fun _ => [])) =
      bracesFrom .cFamily none none line := by
    have hsource := @bracesFrom_fill _ _ _ hspaced.legible_masked hapart [] (fun _ => rfl) rfl rfl
    rw [List.append_nil, ← hcode, bracesFrom_split_code (.inr rfl)] at hsource
    rw [hsource, ← braces_filter_solid, ← braces_filter_solid _ (pieces masked.text)]
    exact congrArg _ (congrArg _ hspaced.solid)
  have hfill := fun tail => @bracesFrom_fill _ spans (pieces spaced) hspaced.legible_spaced hapart' tail
  rw [hbraces] at hfill
  generalize (pieces spaced).flatMap (Piece.fill spans) = out at htidy hfill
  refine ⟨out, htidy, ?_⟩
  rw [Line.assemble]
  split
  next hcomment =>
      have hown := hfill [] (fun _ => rfl) rfl rfl
      rwa [List.append_nil] at hown
  next hcomment =>
      have hopens := Comment.opensComment_normalize (.inr rfl)
        (Comment.opensComment_split_comment (by simpa using hcomment))
      have hcomment' := bracesFrom_of_opens hopens none
      split
      next hempty =>
          have hnil : out = [] := by simpa using hempty
          have hown := hfill [] (fun _ => rfl) rfl rfl
          rw [hnil] at hown
          rw [hcomment', ← hown]
          rfl
      next =>
          refine hfill _ (fun hmay => absurd hmay hcomment) (headIs_signs_of_blank (by decide)) ?_
          rw [bracesFrom_blank (by decide) (by simp), bracesFrom_cFamily, hcomment']

/-- **Tidying a line of the C family leaves its effect on the depth as it is**, in any language. The
braces outside of literals and comments are the same in the tidied line, which is scanned and masked
from scratch, so from any depth on both lines lead to the same one. -/
theorem braces_tidy (language : Option Text) {line : Text} (hplain : markOpen ∉ line)
    (hlength : line.length ≤ numberLimit) :
    ∃ out, Line.tidy .cFamily language line = .ok out ∧
      braces (bareCode .cFamily out) = braces (bareCode .cFamily line.trim) ∧
      ∀ depth, advance .cFamily depth out = advance .cFamily depth line.trim ∧
        advance .cFamily depth out = advance .cFamily depth line := by
  have hsub := Text.trim_sublist line
  have hline := Text.trimmed_trim line
  have hbraces : ∃ out, Line.tidy .cFamily language line = .ok out ∧
      bracesFrom .cFamily none none out = bracesFrom .cFamily none none line.trim := by
    rw [Line.tidy_eq]
    split
    next => exact ⟨_, rfl, bracesFrom_normalize (.inr rfl) hline none⟩
    next =>
        obtain ⟨out, htidy, hout⟩ := exists_bracesFrom_tidyCode language hline
          (mt (fun hmem => hsub.subset hmem) hplain) (Nat.le_trans hsub.length_le hlength)
        rw [htidy]
        exact ⟨_, rfl, hout⟩
  obtain ⟨out, htidy, hout⟩ := hbraces
  have hsame : braces (bareCode .cFamily out) = braces (bareCode .cFamily line.trim) := by
    rw [braces_bareCode (.inr rfl), braces_bareCode (.inr rfl), hout]
  have hwhole : braces (bareCode .cFamily out) = braces (bareCode .cFamily line) := by
    rw [hsame, braces_bareCode (.inr rfl), braces_bareCode (.inr rfl), bracesFrom_trim (.inr rfl)]
  exact ⟨out, htidy, hsame, fun depth => ⟨advance_congr hsame depth, advance_congr hwhole depth⟩⟩

/-- A block that opens beside a brace in a literal and a brace in a comment. -/
theorem braces_tidy_opener :
    markOpen ∉ "\tif(a=='\x7d')\x7b//\x7d".toList ∧
      ∃ out, Line.tidy .cFamily (some "cpp".toList) "\tif(a=='\x7d')\x7b//\x7d".toList = .ok out ∧
        braces (bareCode .cFamily out) = ['\x7b'] ∧ advance .cFamily 2 out = 3 := by
  have hplain : markOpen ∉ "\tif(a=='\x7d')\x7b//\x7d".toList := by decide
  obtain ⟨out, htidy, hbraces, hdepth⟩ := braces_tidy (some "cpp".toList) hplain
    (Nat.le_trans (by decide) Literal.addressLimit_le)
  refine ⟨hplain, out, htidy, ?_, ?_⟩
  · rw [hbraces]
    decide +kernel
  · rw [(hdepth 2).1]
    decide +kernel

end SourceLayout.Indent
