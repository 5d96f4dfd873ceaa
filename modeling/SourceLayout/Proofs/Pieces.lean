import SourceLayout.Proofs.Line

/-!
# Marks under the spacing rules

A masked text is read as a sequence of pieces, each a complete mark or a character outside of the
marks. No mark runs over the end of a token, and the rules keep the tokens; so after each rule the
pieces are the same but for blank characters, and restoring puts every span into the place of its
mark as it was cut out.
-/

namespace SourceLayout

namespace Literal

open Text (tokens Separated)

inductive Piece where
  | char (c : Char)
  | mark (digits : Text)
  deriving DecidableEq, Repr

def Piece.text : Piece → Text
  | .char c => [c]
  | .mark digits => markOpen :: digits ++ [markClose]

/-- Whether a piece is anything but a blank. -/
def Piece.isSolid : Piece → Bool
  | .char c => !isBlank c
  | .mark _ => true

def Piece.digits? : Piece → Option Text
  | .char _ => none
  | .mark digits => some digits

/-- The text of a piece with a span in the place of its mark. -/
def Piece.fill (spans : Text → Text) : Piece → Text
  | .char c => [c]
  | .mark digits => spans digits

/-- The pieces of a text, from left to right, passing over the next `skip` characters first. -/
def piecesFrom : Nat → Text → List Piece
  | _, [] => []
  | skip + 1, _ :: cs => piecesFrom skip cs
  | 0, c :: cs =>
      match markDigits? (c :: cs) with
      | none => .char c :: piecesFrom 0 cs
      | some digits => .mark digits :: piecesFrom (digits.length + 1) cs

def pieces (t : Text) : List Piece :=
  piecesFrom 0 t

/-- The pieces of a text that are no blanks. -/
def solidPieces (t : Text) : List Piece :=
  (pieces t).filter Piece.isSolid

/-- The digits of the complete marks of a text. -/
def marks (t : Text) : List Text :=
  (pieces t).filterMap Piece.digits?

theorem piecesFrom_drop (skip : Nat) (t : Text) : piecesFrom skip t = pieces (t.drop skip) := by
  induction t generalizing skip with
  | nil => simp [pieces, piecesFrom]
  | cons c cs ih =>
      cases skip with
      | zero => rfl
      | succ skip => exact ih skip

theorem pieces_cons {c : Char} {rest : Text} (hmark : markDigits? (c :: rest) = none) :
    pieces (c :: rest) = .char c :: pieces rest := by
  rw [pieces, piecesFrom, hmark]
  rfl

theorem pieces_markDigits {c : Char} {rest digits : Text}
    (hmark : markDigits? (c :: rest) = some digits) :
    pieces (c :: rest) = .mark digits :: pieces (rest.drop (digits.length + 1)) := by
  rw [pieces, piecesFrom, hmark]
  simp only [piecesFrom_drop]

theorem pieces_mark_append (number : Nat) (rest : Text) :
    pieces (mark number ++ rest) = .mark (Nat.toDigits 10 number) :: pieces rest := by
  have hdigits : markDigits? (mark number ++ rest) = some (Nat.toDigits 10 number) :=
    markDigits?_mark number rest
  rw [mark_append] at hdigits ⊢
  rw [pieces_markDigits hdigits, ← List.drop_drop, List.drop_left]
  rfl

theorem text_mark_of_markDigits? {c : Char} {rest digits : Text}
    (hmark : markDigits? (c :: rest) = some digits) :
    (Piece.mark digits).text ++ rest.drop (digits.length + 1) = c :: rest := by
  simp only [markDigits?, Option.ite_none_right_eq_some, Option.some.injEq] at hmark
  obtain ⟨⟨rfl, _, hclose⟩, rfl⟩ := hmark
  obtain ⟨after, hafter⟩ : ∃ after, rest.dropWhile isDecimal = markClose :: after := by
    cases hdrop : rest.dropWhile isDecimal with
    | nil => simp [hdrop] at hclose
    | cons d ds => exact ⟨ds, by simpa [hdrop] using hclose⟩
  have hsplit : rest.takeWhile isDecimal ++ markClose :: after = rest := by
    rw [← hafter, List.takeWhile_append_dropWhile]
  clear hclose hafter
  generalize rest.takeWhile isDecimal = digits at hsplit
  subst hsplit
  simp [Piece.text, ← List.drop_drop]

/-- The pieces make up the text. -/
theorem text_pieces (t : Text) : (pieces t).flatMap Piece.text = t := by
  induction t using read_induct with
  | done => rfl
  | char c rest hmark ih =>
      rw [pieces_cons hmark, List.flatMap_cons, ih]
      rfl
  | mark c rest digits hmark ih =>
      rw [pieces_markDigits hmark, List.flatMap_cons, ih, text_mark_of_markDigits? hmark]

/-- Separated parts are read one by one. -/
theorem pieces_append {left right : Text} (hsep : Separated .marked left right) :
    pieces (left ++ right) = pieces left ++ pieces right := by
  induction left using read_induct with
  | done => rfl
  | char c left hmark ih =>
      have hsame := markDigits?_append (by simp) hsep
      rw [hmark, List.cons_append] at hsame
      rw [List.cons_append, pieces_cons hsame, pieces_cons hmark, ih hsep.of_cons, List.cons_append]
  | mark c left digits hmark ih =>
      have hsame := markDigits?_append (by simp) hsep
      rw [hmark, List.cons_append] at hsame
      have hshort := length_lt_of_markDigits? hmark
      rw [List.cons_append, pieces_markDigits hsame, pieces_markDigits hmark,
        List.drop_append_of_le_length (by omega), ih (hsep.of_cons.drop _), List.cons_append]

/-- What is read besides blanks is told by the tokens. -/
theorem solidPieces_eq_flatMap (t : Text) :
    solidPieces t = (tokens .marked t).flatMap solidPieces := by
  have htokens := Text.tokenized .marked t
  generalize tokens .marked t = toks at htokens
  induction htokens with
  | nil => rfl
  | @blank c t toks hblank _ ih =>
      have hc : c ≠ markOpen := by
        rintro rfl
        exact absurd hblank (by decide)
      rw [← ih, solidPieces, pieces_cons (markDigits?_cons_of_ne hc t),
        List.filter_cons_of_neg (by simp [Piece.isSolid, hblank])]
      rfl
  | @token tok t toks _ hsep _ ih =>
      rw [List.flatMap_cons, ← ih, solidPieces, pieces_append hsep, List.filter_append]
      rfl

theorem solidPieces_congr {t t' : Text} (htokens : tokens .marked t = tokens .marked t') :
    solidPieces t = solidPieces t' := by
  rw [solidPieces_eq_flatMap, htokens, ← solidPieces_eq_flatMap]

/-- Marks are solid. -/
theorem marks_eq (t : Text) : marks t = (solidPieces t).filterMap Piece.digits? := by
  rw [marks, solidPieces, List.filterMap_filter]
  congr 1
  funext piece
  cases piece with
  | char c => simp [Piece.digits?]
  | mark digits => rfl

theorem mem_pieces_iff {piece : Piece} (hsolid : piece.isSolid = true) (t : Text) :
    piece ∈ pieces t ↔ piece ∈ solidPieces t := by
  simp [solidPieces, hsolid]

theorem mem_marks_iff (digits t : Text) : digits ∈ marks t ↔ .mark digits ∈ pieces t := by
  rw [marks, List.mem_filterMap]
  constructor
  · rintro ⟨piece, hpiece, hdigits⟩
    cases piece with
    | char c => simp [Piece.digits?] at hdigits
    | mark other =>
        obtain rfl : other = digits := Option.some.inj hdigits
        exact hpiece
  · exact fun hmem => ⟨.mark digits, hmem, rfl⟩

/-! ### The spans of the marks -/

variable {literals : List Text} {bound : Nat}

/-- What restoring gives for a mark that stands alone. -/
def spanOf (literals : List Text) (digits : Text) : Text :=
  (restore ⟨(Piece.mark digits).text, literals⟩).toOption.getD []

theorem spanOf_toDigits {number : Nat} {span : Text} (hlimit : literals.length ≤ numberLimit)
    (h : Expands literals literals.length (mark number) span) :
    restore ⟨(Piece.mark (Nat.toDigits 10 number)).text, literals⟩ = .ok span ∧
      spanOf literals (Nat.toDigits 10 number) = span := by
  have hrestore : restore ⟨(Piece.mark (Nat.toDigits 10 number)).text, literals⟩ = .ok span :=
    @Expands.restore_eq ⟨mark number, literals⟩ span hlimit h
  rw [spanOf, hrestore]
  exact ⟨rfl, rfl⟩

/-- A piece that stands for what it is filled with, and if it is a mark can be restored. -/
structure Piece.Filled (literals : List Text) (piece : Piece) : Prop where
  expands : Expands literals literals.length piece.text (piece.fill (spanOf literals))
  restore_eq : ∀ digits, piece = .mark digits →
    restore ⟨piece.text, literals⟩ = .ok (spanOf literals digits)

theorem Piece.filled_char {c : Char} (hc : c ≠ markOpen) : (Piece.char c).Filled literals :=
  ⟨.char hc .nil, nofun⟩

/-- In what stands for a text every opening sign belongs to a mark. -/
theorem Expands.markOpen_notMem {t o : Text} (h : Expands literals bound t o) :
    .char markOpen ∉ pieces t := by
  induction h with
  | nil => exact List.not_mem_nil
  | @char bound c t o hc _ ih =>
      rw [pieces_cons (markDigits?_cons_of_ne hc t), List.mem_cons, not_or]
      exact ⟨fun heq => hc (Piece.char.inj heq).symm, ih⟩
  | @mark bound number span part t o _ _ _ _ _ ih =>
      rw [pieces_mark_append, List.mem_cons, not_or]
      exact ⟨nofun, ih⟩

/-- What a masked text stands for is told piece by piece. -/
theorem Expands.fill {t o : Text} (hlimit : literals.length ≤ numberLimit)
    (hbound : bound ≤ literals.length) (h : Expands literals bound t o) :
    (∀ piece ∈ pieces t, piece.Filled literals) ∧
      (pieces t).flatMap (Piece.fill (spanOf literals)) = o := by
  induction h with
  | nil => exact ⟨nofun, rfl⟩
  | @char bound c t o hc _ ih =>
      obtain ⟨hfilled, hfill⟩ := ih hbound
      rw [pieces_cons (markDigits?_cons_of_ne hc t), List.flatMap_cons, hfill]
      exact ⟨List.forall_mem_cons.mpr ⟨Piece.filled_char hc, hfilled⟩, rfl⟩
  | @mark bound number span part t o hlt hget hpart _ _ ih =>
      obtain ⟨hfilled, hfill⟩ := ih hbound
      have hmark : Expands literals literals.length (Literal.mark number) part := by
        have hwhole := Expands.mark (Nat.lt_of_lt_of_le hlt hbound) hget hpart .nil
        rwa [List.append_nil, List.append_nil] at hwhole
      obtain ⟨hrestore, hspan⟩ := spanOf_toDigits hlimit hmark
      rw [pieces_mark_append, List.flatMap_cons, hfill, Piece.fill, hspan]
      refine ⟨List.forall_mem_cons.mpr ⟨⟨?_, ?_⟩, hfilled⟩, rfl⟩
      · rw [Piece.fill, hspan]
        exact hmark
      · intro digits hdigits
        rw [← Piece.mark.inj hdigits, hspan]
        exact hrestore

theorem Expands.of_filled {t : Text} (hfilled : ∀ piece ∈ pieces t, piece.Filled literals) :
    Expands literals literals.length t ((pieces t).flatMap (Piece.fill (spanOf literals))) := by
  have hall : ∀ ps : List Piece, (∀ piece ∈ ps, piece.Filled literals) →
      Expands literals literals.length (ps.flatMap Piece.text)
        (ps.flatMap (Piece.fill (spanOf literals))) := by
    intro ps hps
    induction ps with
    | nil => exact .nil
    | cons piece ps ih =>
        obtain ⟨hpiece, hothers⟩ := List.forall_mem_cons.mp hps
        exact hpiece.expands.append (ih hothers)
  have htext := hall (pieces t) hfilled
  rwa [text_pieces] at htext

theorem forall_filled_congr {t t' : Text} (hsolid : solidPieces t = solidPieces t')
    (hfilled : ∀ piece ∈ pieces t, piece.Filled literals) :
    ∀ piece ∈ pieces t', piece.Filled literals := by
  intro piece hpiece
  cases hp : piece.isSolid with
  | true =>
      rw [mem_pieces_iff hp, ← hsolid, ← mem_pieces_iff hp] at hpiece
      exact hfilled piece hpiece
  | false =>
      cases piece with
      | char c =>
          refine Piece.filled_char ?_
          rintro rfl
          exact absurd hp (by decide)
      | mark digits => cases hp

end Literal

namespace Spacing

theorem Rule.apply_nil (rule : Rule) : rule.apply [] = [] := by
  have hrespace : ∀ pattern : Pattern, pattern.respace [] = [] := fun _ => rfl
  rw [Rule.apply]
  cases rule.action with
  | respace pattern => exact hrespace pattern
  | declarationColons => exact hrespace declarationColon
  | collapse | keyColons | sliceColons | keywordArguments => rfl

theorem applyAll_nil (rules : List Rule) : applyAll rules [] = [] := by
  refine applyAll_induct (motive := (· = [])) ?_ rfl
  rintro rule _ _ rfl
  exact Rule.apply_nil rule

/-- However many of the rules of a family have been applied, what is read is the same but for
blanks. -/
theorem solidPieces_applyAll {family : Family} {language : Option Text} {done : List Rule}
    (hdone : done <+: rules family language) (t : Text) :
    Literal.solidPieces (applyAll done t) = Literal.solidPieces t := by
  have hsafe : ∀ rule ∈ done, rule.isSafe .marked [] = true :=
    fun rule hrule => rules_isSafe family language rule (hdone.subset hrule)
  exact Literal.solidPieces_congr (tokens_applyAll (by simp) hsafe (by simp [Text.Lacks]))

end Spacing

namespace Line

open Literal (mask restore markOpen numberLimit Piece pieces solidPieces marks)

theorem mask_nil (family : Family) (language : Option Text) :
    mask family language [] = ⟨[], []⟩ :=
  Literal.mask_eq_of_run fun _ _ => rfl

/-- Tidied code is restored from the spaced text also if there is nothing to space. -/
theorem tidyCode_eq_restore (family : Family) (language : Option Text) (code : Text) :
    tidyCode family language code = restore
      { mask family language code.trim with
        text := Spacing.applyAll (Spacing.rules family language)
          (mask family language code.trim).text } := by
  rw [tidyCode]
  split
  next hempty =>
      have htrim : code.trim = [] := by simpa using hempty
      rw [htrim, mask_nil, Spacing.applyAll_nil]
      rfl
  next => rfl

/-- Code without marks of its own is tidied to its spaced pieces, with the spans that were cut out in
the places of the marks. -/
theorem exists_fill_tidyCode (family : Family) (language : Option Text) {code : Text}
    (hplain : markOpen ∉ code) (hlength : code.length ≤ numberLimit) :
    ∃ (spans : Text → Text) (out : Text),
      tidyCode family language code = .ok out ∧
      (∀ digits ∈ marks (mask family language code.trim).text,
        restore ⟨(Piece.mark digits).text, (mask family language code.trim).literals⟩ =
          .ok (spans digits)) ∧
      code.trim = (pieces (mask family language code.trim).text).flatMap (Piece.fill spans) ∧
      out = (pieces (Spacing.applyAll (Spacing.rules family language)
        (mask family language code.trim).text)).flatMap (Piece.fill spans) := by
  have htrim : markOpen ∉ code.trim := mt (fun hmem => (Text.trim_sublist code).subset hmem) hplain
  have hstands := Literal.stands_mask family language htrim
  rw [tidyCode_eq_restore]
  generalize mask family language code.trim = masked at hstands
  have hlimit : masked.literals.length ≤ numberLimit :=
    Nat.le_trans hstands.literals_length_le
      (Nat.le_trans (Text.trim_sublist code).length_le hlength)
  obtain ⟨hfilled, hcode⟩ := hstands.1.fill hlimit (Nat.le_refl _)
  have hsolid := Spacing.solidPieces_applyAll (List.prefix_refl (Spacing.rules family language))
    masked.text
  have hspaced := Literal.Expands.of_filled (Literal.forall_filled_congr hsolid.symm hfilled)
  refine ⟨Literal.spanOf masked.literals, _, hspaced.restore_eq hlimit, ?_, hcode.symm, rfl⟩
  intro digits hdigits
  exact (hfilled _ ((Literal.mem_marks_iff digits _).mp hdigits)).restore_eq digits rfl

/-- **No rule touches a mark**, in any family and language. After each rule the marks of the masked
text are all there, in their order, every opening sign belongs to one of them, and what stands
around them is the same but for blanks. The tidied code is what comes of the trimmed code when the
pieces are spaced that way and every mark is the span that was cut out there. -/
theorem tidyCode_keeps_spans (family : Family) (language : Option Text) {code : Text}
    (hplain : markOpen ∉ code) :
    (∀ done, done <+: Spacing.rules family language →
      marks (Spacing.applyAll done (mask family language code.trim).text) =
          marks (mask family language code.trim).text ∧
        .char markOpen ∉ pieces (Spacing.applyAll done (mask family language code.trim).text) ∧
        solidPieces (Spacing.applyAll done (mask family language code.trim).text) =
          solidPieces (mask family language code.trim).text) ∧
    (code.length ≤ numberLimit → ∃ (spans : Text → Text) (out : Text),
      tidyCode family language code = .ok out ∧
      (∀ digits ∈ marks (mask family language code.trim).text,
        restore ⟨(Piece.mark digits).text, (mask family language code.trim).literals⟩ =
          .ok (spans digits)) ∧
      code.trim = (pieces (mask family language code.trim).text).flatMap (Piece.fill spans) ∧
      out = (pieces (Spacing.applyAll (Spacing.rules family language)
        (mask family language code.trim).text)).flatMap (Piece.fill spans)) := by
  have htrim : markOpen ∉ code.trim := mt (fun hmem => (Text.trim_sublist code).subset hmem) hplain
  have hstands := Literal.stands_mask family language htrim
  refine ⟨fun done hdone => ?_, exists_fill_tidyCode family language hplain⟩
  have hsolid := Spacing.solidPieces_applyAll hdone (mask family language code.trim).text
  have hopen : (Piece.char markOpen).isSolid = true := by decide
  refine ⟨by rw [Literal.marks_eq, hsolid, ← Literal.marks_eq], ?_, hsolid⟩
  rw [Literal.mem_pieces_iff hopen, hsolid, ← Literal.mem_pieces_iff hopen]
  exact hstands.1.markOpen_notMem

/-- A reference around a string: one mark is left in the text, and it stands for both. -/
theorem tidyCode_keeps_spans_reference :
    markOpen ∉ "a :url( 'x  y' );b:c".toList ∧
      ∃ (spans : Text → Text) (out : Text),
        tidyCode .css none "a :url( 'x  y' );b:c".toList = .ok out ∧
        spans ['1'] = "url( 'x  y' )".toList ∧
        out = (pieces (Spacing.applyAll Spacing.cssRules
          (mask .css none (Text.trim "a :url( 'x  y' );b:c".toList)).text)).flatMap
            (Piece.fill spans) := by
  have hplain : markOpen ∉ "a :url( 'x  y' );b:c".toList := by decide +kernel
  obtain ⟨_, hkept⟩ := tidyCode_keeps_spans .css none hplain
  obtain ⟨spans, out, htidy, hrestore, _, hout⟩ :=
    hkept (Nat.le_trans (by decide +kernel) Literal.addressLimit_le)
  refine ⟨hplain, spans, out, htidy, ?_, hout⟩
  have hspan := hrestore ['1'] (by decide +kernel)
  have hreference : restore ⟨(Piece.mark ['1']).text,
      (mask .css none (Text.trim "a :url( 'x  y' );b:c".toList)).literals⟩ =
        .ok "url( 'x  y' )".toList :=
    eq_ok_of_toOption (by decide +kernel)
  exact Except.ok.inj (hspan.symm.trans hreference)

end Line

end SourceLayout
