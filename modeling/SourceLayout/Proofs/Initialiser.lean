import SourceLayout.Proofs.Layout.Reading
import SourceLayout.Proofs.Literal.Framed
import SourceLayout.Proofs.Spacing.Comparison

/-!
# A list of types and its initialiser

Tidying writes blanks around the sign of an assignment, unless an angle bracket comes before it that
is in no literal: then the rules make one operator of the two. So the bracket that ends an argument
list of types stays apart from the sign if the list is cut out, which it is when it consists of
characters that such a list may hold. A character that no list holds, such as the bar of a union or
the quote of a literal type, keeps the list in the text, and its last bracket and the sign are fused.
-/

namespace SourceLayout

open Text (solid solid_append solid_blanks solid_cons)

namespace Literal

variable {spans : Text → Text} {ps : List Piece}

/-! ### Pieces around a gap -/

/-- In what stands for a text every opening sign belongs to a mark, so what comes after is read by
itself. -/
theorem Expands.pieces_append {literals : List Text} {bound : Nat} {t o : Text}
    (h : Expands literals bound t o) (rest : Text) : pieces (t ++ rest) = pieces t ++ pieces rest := by
  induction h with
  | nil => rfl
  | @char bound c t o hc _ ih =>
      rw [List.cons_append, pieces_cons (markDigits?_cons_of_ne hc _),
        pieces_cons (markDigits?_cons_of_ne hc t), ih, List.cons_append]
  | @mark bound number span part t o _ _ _ _ _ ih =>
      rw [List.append_assoc, pieces_mark_append, pieces_mark_append, ih, List.cons_append]

theorem pieces_of_plain {t : Text} (hplain : markOpen ∉ t) : pieces t = t.map .char := by
  induction t with
  | nil => rfl
  | cons c cs ih =>
      rw [List.mem_cons, not_or] at hplain
      rw [pieces_cons (markDigits?_cons_of_ne (Ne.symm hplain.1) cs), ih hplain.2, List.map_cons]

/-- Pieces that are blanks leave nothing but blanks. -/
theorem solid_filter_isSolid {write : Piece → Text} (hwrite : ∀ c, write (.char c) = [c]) :
    solid ((ps.filter Piece.isSolid).flatMap write) = solid (ps.flatMap write) := by
  induction ps with
  | nil => rfl
  | cons piece ps ih =>
      cases hsolid : piece.isSolid with
      | true =>
          rw [List.filter_cons_of_pos hsolid, List.flatMap_cons, List.flatMap_cons, solid_append,
            solid_append, ih]
      | false =>
          rw [List.filter_cons_of_neg (by simp [hsolid]), List.flatMap_cons, solid_append, ih]
          cases piece with
          | mark digits => cases hsolid
          | char c =>
              have hblank : isBlank c = true := by simpa [Piece.isSolid] using hsolid
              have hnone : solid [c] = [] := solid_blanks (by simpa using hblank)
              rw [hwrite, hnone, List.nil_append]

theorem solid_text_of_filter {t : Text} {ps' : List Piece}
    (hsame : ps'.filter Piece.isSolid = solidPieces t) :
    solid (ps'.flatMap Piece.text) = solid t := by
  rw [← solid_filter_isSolid fun _ => rfl, hsame, solidPieces, solid_filter_isSolid fun _ => rfl,
    text_pieces]

/-- A text with two solid pieces next to each other but for blanks. -/
structure Between (t : Text) (first second : Piece) (ps ps' : List Piece) (gap : Text) : Prop where
  pieces : pieces t = ps ++ first :: (gap.map .char ++ second :: ps')
  gap : gap.all isBlank = true

theorem Between.flatMap {t gap : Text} {first second : Piece} {ps' : List Piece}
    (h : Between t first second ps ps' gap) (write : Piece → Text) (hwrite : ∀ c, write (.char c) = [c]) :
    (Literal.pieces t).flatMap write =
      ps.flatMap write ++ (write first ++ (gap ++ (write second ++ ps'.flatMap write))) := by
  have hgap : (gap.map Piece.char).flatMap write = gap := by
    rw [List.flatMap_map]
    simp only [hwrite]
    exact List.flatMap_singleton' gap
  rw [h.pieces, List.flatMap_append, List.flatMap_cons, List.flatMap_append, List.flatMap_cons,
    hgap]

theorem exists_between {t : Text} {front back : List Piece} {first second : Piece}
    (hsolid : solidPieces t = front ++ first :: second :: back) :
    ∃ ps ps' gap, Between t first second ps ps' gap ∧ ps.filter Piece.isSolid = front ∧
      ps'.filter Piece.isSolid = back := by
  obtain ⟨ps, blanks, ps', hpieces, hblanks, hfront, hback⟩ := Spacing.exists_of_filter hsolid
  obtain ⟨gap, rfl, hgap⟩ : ∃ gap : Text, blanks = gap.map .char ∧ gap.all isBlank = true := by
    clear hpieces
    induction blanks with
    | nil => exact ⟨[], rfl, rfl⟩
    | cons piece blanks ih =>
        obtain ⟨hpiece, hblanks⟩ := List.forall_mem_cons.mp hblanks
        obtain ⟨gap, rfl, hgap⟩ := ih hblanks
        cases piece with
        | mark digits => cases hpiece
        | char c => exact ⟨c :: gap, rfl, by simpa [hgap, Piece.isSolid] using hpiece⟩
  exact ⟨ps, ps', gap, ⟨hpieces, hgap⟩, hfront, hback⟩

/-! ### What is left of a masked line -/

/-- What stands for a value that starts with a word starts with no sign of a comparison. -/
theorem Expands.headIs_solid {literals : List Text} {bound : Nat} {t o : Text}
    (h : Expands literals bound t o) (hword : headIs isWord o = true) :
    headIs (fun c => c == '=' || c == '>') (solid t) = false := by
  cases h with
  | nil => cases hword
  | @char bound c t o _ _ =>
      have hblank : isBlank c = false := by
        rw [Bool.eq_false_iff]
        intro hblank
        rw [headIs_cons, isWord_of_isBlank c hblank] at hword
        cases hword
      rw [solid_cons hblank, headIs_cons, Bool.eq_false_iff]
      intro hsign
      rcases (by simpa using hsign : c = '=' ∨ c = '>') with rfl | rfl <;> cases hword
  | mark _ _ _ _ =>
      rw [mark_append, solid_cons (by decide +kernel), headIs_cons]
      decide +kernel

theorem solidPieces_of_plain {t : Text} (hplain : markOpen ∉ t) :
    solidPieces t = (solid t).map .char := by
  rw [solidPieces, pieces_of_plain hplain, List.filter_map]
  rfl

/-- Restoring other blanks around the same pieces changes nothing but blanks. -/
theorem Expands.solid_fill {literals : List Text} {t o : Text} (hlimit : literals.length ≤ numberLimit)
    (h : Expands literals literals.length t o) (hsame : ps.filter Piece.isSolid = solidPieces t) :
    solid (ps.flatMap (Piece.fill (spanOf literals))) = solid o := by
  rw [← solid_filter_isSolid fun _ => rfl, hsame, solidPieces, solid_filter_isSolid fun _ => rfl,
    (h.fill hlimit (Nat.le_refl _)).2]

variable {masked : Masked} {u stretch s left right : Text}

theorem Framed.solidPieces_text (h : Framed masked u stretch s left right) {bound : Nat} {o : Text}
    (hstretch : Expands masked.literals bound stretch o) :
    solidPieces masked.text = solidPieces u ++ (solidPieces stretch ++ solidPieces s) := by
  rw [h.text, solidPieces, h.left.pieces_append, hstretch.pieces_append, List.filter_append,
    List.filter_append]
  rfl

/-- Two solid pieces of a framed stretch, and what the rules make of the text around them. -/
theorem Framed.exists_between (h : Framed masked u stretch s left right)
    (hlimit : masked.literals.length ≤ numberLimit) {first : Piece} {o : Text}
    (hexpands : Expands masked.literals masked.literals.length stretch o)
    (hstretch : solidPieces stretch = [first, .char '=']) {spaced : Text}
    (hspaced : solidPieces spaced = solidPieces masked.text) :
    ∃ ps ps' gap, Between spaced first (.char '=') ps ps' gap ∧
      ps.filter Piece.isSolid = solidPieces u ∧
      solid (ps.flatMap (Piece.fill (spanOf masked.literals))) = solid left ∧
      solid (ps'.flatMap (Piece.fill (spanOf masked.literals))) = solid right := by
  rw [h.solidPieces_text hexpands, hstretch] at hspaced
  obtain ⟨ps, ps', gap, hbetween, hfront, hback⟩ := Literal.exists_between hspaced
  exact ⟨ps, ps', gap, hbetween, hfront, h.left.solid_fill hlimit hfront,
    h.right.solid_fill hlimit hback⟩

end Literal

namespace Line

open Literal (mask markOpen numberLimit Piece pieces solidPieces spanOf isTypeListChar NumberFree
  openLiteral? isBlunt IsAssignment Framed)

/-- An argument list of types with what is before it, and after it the sign of an assignment and the
value. -/
def initialised (front list gap gap' value : Text) : Text :=
  front ++ ('<' :: (list ++ '>' :: (gap ++ '=' :: gap')) ++ value)

/-- A list that is cut out. -/
structure Listed (family : Family) (front list : Text) : Prop where
  /-- A word outside of literals comes before the list. -/
  name : headIs isWord (mask family none front.trimLeft).text.reverse = true
  chars : list.all isTypeListChar = true
  /-- No number starts in the list. -/
  numbers : NumberFree ('<' :: list)

/-- A list that stays in the text. -/
structure Unlisted (family : Family) (front list : Text) : Prop where
  /-- Its last bracket is not in quotes. -/
  closed : openLiteral? family none none (front.trimLeft ++ '<' :: list) = none
  /-- After each of its brackets there is a character that no list holds. -/
  blunt : isBlunt ('<' :: list) = true

/-! ### The trimmed line -/

variable {front list gap gap' value : Text}

theorem headIs_trimRight (hvalue : headIs isWord value = true) :
    headIs isWord value.trimRight = true := by
  obtain ⟨blanks, hblanks, hsplit⟩ := Text.trimRight_append value
  cases htrim : value.trimRight with
  | nil =>
      rw [htrim, List.nil_append] at hsplit
      rw [hsplit, List.all_eq_true] at hblanks
      cases value with
      | nil => cases hvalue
      | cons c cs =>
          have hword := isWord_of_isBlank c (hblanks c List.mem_cons_self)
          rw [headIs_cons, hword] at hvalue
          cases hvalue
  | cons c cs =>
      rw [← hsplit, htrim] at hvalue
      exact hvalue

theorem trim_initialised (hvalue : headIs isWord value = true) :
    (initialised front list gap gap' value).trim =
      initialised front.trimLeft list gap gap' value.trimRight := by
  have hword := headIs_trimRight hvalue
  have hne : value.trimRight ≠ [] := by
    intro hnil
    rw [hnil] at hword
    cases hword
  obtain ⟨blanks, hblanks, hright⟩ := Text.trimRight_append value
  have hleft : front.takeWhile isBlank ++ front.trimLeft = front := List.takeWhile_append_dropWhile
  have htrimmed : Text.Trimmed (initialised front.trimLeft list gap gap' value.trimRight) := by
    refine ⟨?head, ?last⟩
    case head =>
      have hhead := Text.headIs_trimLeft front
      rw [initialised]
      cases htrim : front.trimLeft with
      | nil => exact (by decide : isBlank '<' = false)
      | cons c cs =>
          rw [htrim] at hhead
          exact hhead
    case last =>
      rw [initialised, ← List.append_assoc, Text.headIs_reverse_append_of_ne_nil hne, Text.trimRight,
        List.reverse_reverse]
      exact Text.headIs_trimLeft _
  have hwhole : initialised front list gap gap' value = front.takeWhile isBlank ++
      (initialised front.trimLeft list gap gap' value.trimRight ++ blanks) := by
    simp only [initialised, List.append_assoc, hright]
    rw [← List.append_assoc (front.takeWhile isBlank), hleft]
  rw [hwhole, Text.trim_blanks_append List.all_takeWhile, Text.trim_append_blanks hblanks,
    htrimmed.trim_eq]

/-! ### Tidied initialisers -/

theorem isAssignment (hgap : gap.all isBlank = true) (hgap' : gap'.all isBlank = true) :
    IsAssignment (gap ++ '=' :: gap') where
  mem := by simp
  char := by
    intro c hc
    rcases List.mem_append.mp hc with hc | hc
    · exact .inl (List.all_eq_true.mp hgap c hc)
    · rcases List.mem_cons.mp hc with rfl | hc
      · exact .inr rfl
      · exact .inl (List.all_eq_true.mp hgap' c hc)

theorem solid_assignment (hgap : gap.all isBlank = true) (hgap' : gap'.all isBlank = true) :
    solid (gap ++ '=' :: gap') = ['='] := by
  rw [solid_append, solid_blanks hgap, solid_cons (by decide), solid_blanks hgap']
  rfl

variable {family : Family} {language : Option Text}

theorem exists_apart (hcode : family = .javascript ∨ family = .cFamily)
    (hlanguage : Literal.typeListLanguages.any (some · == language) = true)
    (hgap : gap.all isBlank = true) (hgap' : gap'.all isBlank = true)
    (hname : headIs isWord (mask family none front).text.reverse = true)
    (hchars : list.all isTypeListChar = true) (hnumbers : NumberFree ('<' :: list))
    (htrim : Text.Trimmed (initialised front list gap gap' value))
    (hplain : markOpen ∉ initialised front list gap gap' value)
    (hlength : (initialised front list gap gap' value).length ≤ numberLimit) :
    ∃ left between right,
      tidyCode family language (initialised front list gap gap' value) =
        .ok (initialised left list between [] right) ∧
      between ≠ [] ∧ between.all isBlank = true ∧ solid left = solid front ∧
      solid right = solid value := by
  have htail := isAssignment hgap hgap'
  obtain ⟨hspaced, _, htidy⟩ := @spaced_mask family true hcode language _ htrim hplain hlength
    (fun hmay => by cases hmay)
  have hlimit := Nat.le_trans (Literal.stands_mask family language hplain).literals_length_le hlength
  have happart := Spacing.apart_assignment hcode language
    (mask family language (initialised front list gap gap' value)).text
  obtain ⟨u, number, start, left, s, rfl, hframed, hget⟩ :=
    Literal.exists_framed_list hcode hlanguage hname hchars hnumbers htail hplain
  rw [← initialised] at hframed hget
  generalize mask family language (initialised (left ++ start) list gap gap' value) = masked at *
  generalize Spacing.applyAll (Spacing.rules family language) masked.text = spaced at *
  have hsplit : initialised (left ++ start) list gap gap' value = left ++
      ((start ++ '<' :: (list ++ ['>'])) ++ ((gap ++ '=' :: gap') ++ value)) := by simp [initialised]
  rw [hsplit] at hplain
  have hstart : markOpen ∉ start ++ '<' :: (list ++ ['>']) :=
    fun hmem => hplain (List.mem_append_right _ (List.mem_append_left _ hmem))
  have hrest : markOpen ∉ gap ++ '=' :: gap' := fun hmem =>
    hplain (List.mem_append_right _ (List.mem_append_right _ (List.mem_append_left _ hmem)))
  have hnumber := (List.getElem?_eq_some_iff.mp hget).1
  have hstretch : solidPieces (Literal.mark number ++ (gap ++ '=' :: gap')) =
      [.mark (Nat.toDigits 10 number), .char '='] := by
    rw [solidPieces, Literal.pieces_mark_append, List.filter_cons_of_pos rfl, ← solidPieces,
      Literal.solidPieces_of_plain hrest, solid_assignment hgap hgap']
    rfl
  obtain ⟨ps, ps', between, hbetween, _, hleft, hright⟩ := hframed.exists_between hlimit
    (.mark hnumber hget (.of_plain hstart) (.of_plain hrest)) hstretch hspaced.solid
  have hspan := Literal.spanOf_of_plain hlimit hget hstart
  have hfill := hbetween.flatMap (Piece.fill (spanOf masked.literals)) fun _ => rfl
  have htext := hbetween.flatMap Piece.text fun _ => rfl
  rw [Literal.text_pieces] at htext
  refine ⟨ps.flatMap (Piece.fill (spanOf masked.literals)) ++ start, between,
    ps'.flatMap (Piece.fill (spanOf masked.literals)), ?_, ?_, hbetween.gap, ?_, hright⟩
  · rw [htidy, hfill]
    simp [Piece.fill, hspan, initialised]
  · rintro rfl
    have hseam : spaced = (ps.flatMap Piece.text ++ markOpen :: Nat.toDigits 10 number) ++
        Literal.markClose :: '=' :: ps'.flatMap Piece.text := by
      rw [htext]
      simp [Piece.text]
    rw [hseam] at happart
    exact happart.not_both ⟨by decide +kernel, by decide +kernel⟩
  · rw [solid_append, hleft, solid_append]

theorem exists_fused (hcode : family = .javascript ∨ family = .cFamily)
    (hlanguage : Literal.typeListLanguages.any (some · == language) = true)
    (hgap : gap.all isBlank = true) (hgap' : gap'.all isBlank = true)
    (hvalue : headIs isWord value = true)
    (hclosed : openLiteral? family none none (front ++ '<' :: list) = none)
    (hblunt : isBlunt ('<' :: list) = true)
    (htrim : Text.Trimmed (initialised front list gap gap' value))
    (hplain : markOpen ∉ initialised front list gap gap' value)
    (hlength : (initialised front list gap gap' value).length ≤ numberLimit) :
    ∃ left right,
      tidyCode family language (initialised front list gap gap' value) =
        .ok (left ++ '>' :: '=' :: right) ∧
      solid left = solid (front ++ '<' :: list) ∧ solid right = solid value := by
  have htail := isAssignment hgap hgap'
  have hsplit : initialised front list gap gap' value =
      (front ++ '<' :: list) ++ ('>' :: (gap ++ '=' :: gap') ++ value) := by simp [initialised]
  rw [hsplit] at htrim hplain hlength ⊢
  obtain ⟨hspaced, _, htidy⟩ := @spaced_mask family true hcode language _ htrim hplain hlength
    (fun hmay => by cases hmay)
  have hlimit := Nat.le_trans (Literal.stands_mask family language hplain).literals_length_le hlength
  have hfused := @Spacing.fused_rules family hcode language
    (mask family language ((front ++ '<' :: list) ++ ('>' :: (gap ++ '=' :: gap') ++ value))).text
  obtain ⟨u, s, hframed⟩ := Literal.exists_framed_bracket hcode hlanguage hclosed
    (Literal.isBlunt_append _ hblunt) htail hplain
  generalize mask family language ((front ++ '<' :: list) ++ ('>' :: (gap ++ '=' :: gap') ++ value)) =
    masked at *
  generalize Spacing.applyAll (Spacing.rules family language) masked.text = spaced at *
  have hrest : markOpen ∉ '>' :: (gap ++ '=' :: gap') := fun hmem =>
    hplain (List.mem_append_right _ (List.mem_append_left _ hmem))
  have hsigns : solid ('>' :: (gap ++ '=' :: gap')) = ['>', '='] := by
    rw [solid_cons (by decide), solid_assignment hgap hgap']
  have hstretch : solidPieces ('>' :: (gap ++ '=' :: gap')) = [.char '>', .char '='] := by
    rw [Literal.solidPieces_of_plain hrest, hsigns]
    rfl
  obtain ⟨ps, ps', between, hbetween, hfront, hleft, hright⟩ := hframed.exists_between hlimit
    (.of_plain hrest) hstretch hspaced.solid
  have hfill := hbetween.flatMap (Piece.fill (spanOf masked.literals)) fun _ => rfl
  have htext := hbetween.flatMap Piece.text fun _ => rfl
  rw [Literal.text_pieces] at htext
  have hsolid : solid masked.text = solid u ++ '>' :: '=' :: solid s := by
    rw [hframed.text, solid_append, solid_append, hsigns]
    rfl
  have hfused := hfused hsolid (hframed.right.headIs_solid hvalue)
  rw [htext] at hfused
  obtain rfl := hfused.gap_eq_nil hbetween.gap (Literal.solid_text_of_filter hfront)
  exact ⟨_, _, htidy.trans (congrArg Except.ok hfill), hleft, hright⟩

theorem solid_trimLeft (t : Text) : solid t.trimLeft = solid t := by
  rw [← Text.flatten_tokens .plain, Text.tokens_trimLeft, Text.flatten_tokens]

theorem solid_trimRight (t : Text) : solid t.trimRight = solid t := by
  rw [← Text.flatten_tokens .plain, Text.tokens_trimRight, Text.flatten_tokens]

theorem tidyCode_trim (family : Family) (language : Option Text) (code : Text) :
    tidyCode family language code.trim = tidyCode family language code := by
  rw [tidyCode_eq_restore, tidyCode_eq_restore, Text.trim_trim]

section

variable (hcode : family = .javascript ∨ family = .cFamily)
  (hlanguage : Literal.typeListLanguages.any (some · == language) = true)
  (hgap : gap.all isBlank = true) (hgap' : gap'.all isBlank = true)
  (hvalue : headIs isWord value = true)
  (hplain : markOpen ∉ initialised front list gap gap' value)
  (hlength : (initialised front list gap gap' value).length ≤ numberLimit)

include hcode hlanguage hgap hgap' hvalue hplain hlength

theorem tidyCode_of_listed (hlisted : Listed family front list) :
    ∃ left between right,
      tidyCode family language (initialised front list gap gap' value) =
        .ok (initialised left list between [] right) ∧
      between ≠ [] ∧ between.all isBlank = true ∧ solid left = solid front ∧
      solid right = solid value := by
  have hsub := Text.trim_sublist (initialised front list gap gap' value)
  have htrim := Text.trimmed_trim (initialised front list gap gap' value)
  have hplain := mt (fun hmem => hsub.subset hmem) hplain
  have hlength := Nat.le_trans hsub.length_le hlength
  rw [trim_initialised hvalue] at htrim hplain hlength
  obtain ⟨left, between, right, hout, hne, hblank, hfront, hback⟩ := exists_apart hcode hlanguage
    hgap hgap' hlisted.name hlisted.chars hlisted.numbers htrim hplain hlength
  rw [← trim_initialised hvalue, tidyCode_trim] at hout
  exact ⟨left, between, right, hout, hne, hblank, hfront.trans (solid_trimLeft front),
    hback.trans (solid_trimRight value)⟩

theorem tidyCode_of_unlisted (hunlisted : Unlisted family front list) :
    ∃ left right,
      tidyCode family language (initialised front list gap gap' value) =
        .ok (left ++ '>' :: '=' :: right) ∧
      solid left = solid (front ++ '<' :: list) ∧ solid right = solid value := by
  have hsub := Text.trim_sublist (initialised front list gap gap' value)
  have htrim := Text.trimmed_trim (initialised front list gap gap' value)
  have hplain := mt (fun hmem => hsub.subset hmem) hplain
  have hlength := Nat.le_trans hsub.length_le hlength
  rw [trim_initialised hvalue] at htrim hplain hlength
  obtain ⟨left, right, hout, hfront, hback⟩ := exists_fused hcode hlanguage hgap hgap'
    (headIs_trimRight hvalue) hunlisted.closed hunlisted.blunt htrim hplain hlength
  rw [← trim_initialised hvalue, tidyCode_trim] at hout
  refine ⟨left, right, hout, ?_, hback.trans (solid_trimRight value)⟩
  rw [hfront, solid_append, solid_trimLeft, ← solid_append]

end

/-- A list that stays in the text but ends with one that is cut out, such as a union whose last member
has a list of its own: both end with the last bracket, and so it stays apart from the initialiser. -/
theorem tidyCode_initialised_nested {inner : Text}
    (hcode : family = .javascript ∨ family = .cFamily)
    (hlanguage : Literal.typeListLanguages.any (some · == language) = true)
    (hgap : gap.all isBlank = true) (hgap' : gap'.all isBlank = true)
    (hvalue : headIs isWord value = true)
    (hplain : markOpen ∉ initialised front (list ++ '<' :: inner) gap gap' value)
    (hlength : (initialised front (list ++ '<' :: inner) gap gap' value).length ≤ numberLimit)
    (hinner : Listed family (front ++ '<' :: list) inner) :
    ∃ left between right,
      tidyCode family language (initialised front (list ++ '<' :: inner) gap gap' value) =
        .ok (initialised left inner between [] right) ∧
      between ≠ [] ∧ between.all isBlank = true ∧ solid left = solid (front ++ '<' :: list) ∧
      solid right = solid value := by
  have hsame : initialised front (list ++ '<' :: inner) gap gap' value =
      initialised (front ++ '<' :: list) inner gap gap' value := by simp [initialised]
  rw [hsame] at hplain hlength ⊢
  exact tidyCode_of_listed hcode hlanguage hgap hgap' hvalue hplain hlength hinner

example : Listed .javascript "let x: Map<string | Set".toList "number>".toList :=
  ⟨by decide +kernel, by decide +kernel, by decide +kernel⟩

/-- **A list that is cut out stays apart from its initialiser, and one that stays in the text is fused
with it.** In the languages with lists of types, the bracket that ends a list keeps a blank before the
sign of an assignment if the list consists of characters that such a list may hold. If a character
that no list holds comes after each of its brackets, the last bracket and the sign are written as one
operator, whatever blanks were between them. -/
theorem tidyCode_initialised (hcode : family = .javascript ∨ family = .cFamily)
    (hlanguage : Literal.typeListLanguages.any (some · == language) = true)
    (hgap : gap.all isBlank = true) (hgap' : gap'.all isBlank = true)
    (hvalue : headIs isWord value = true)
    (hplain : markOpen ∉ initialised front list gap gap' value)
    (hlength : (initialised front list gap gap' value).length ≤ numberLimit) :
    ∃ out, tidyCode family language (initialised front list gap gap' value) = .ok out ∧
      (Listed family front list → ∃ left between right,
        out = initialised left list between [] right ∧ between ≠ [] ∧ between.all isBlank = true ∧
        solid left = solid front ∧ solid right = solid value) ∧
      (Unlisted family front list → ∃ left right,
        out = left ++ '>' :: '=' :: right ∧ solid left = solid (front ++ '<' :: list) ∧
        solid right = solid value) := by
  have hout : ∃ out, tidyCode family language (initialised front list gap gap' value) = .ok out := by
    have hstands := Literal.stands_mask family language
      (mt (fun hmem => (Text.trim_sublist _).subset hmem) hplain)
    exact (exists_tidyCode_iff family language _).mpr ⟨_, hstands.1.restore_eq
      (Nat.le_trans hstands.literals_length_le
        (Nat.le_trans (Text.trim_sublist _).length_le hlength))⟩
  obtain ⟨out, hout⟩ := hout
  refine ⟨out, hout, fun hlisted => ?_, fun hunlisted => ?_⟩
  · obtain ⟨left, between, right, htidy, hsolid⟩ :=
      tidyCode_of_listed hcode hlanguage hgap hgap' hvalue hplain hlength hlisted
    exact ⟨left, between, right, Except.ok.inj (hout.symm.trans htidy), hsolid⟩
  · obtain ⟨left, right, htidy, hsolid⟩ :=
      tidyCode_of_unlisted hcode hlanguage hgap hgap' hvalue hplain hlength hunlisted
    exact ⟨left, right, Except.ok.inj (hout.symm.trans htidy), hsolid⟩

/-- Two names in a list, and a union of two names. -/
theorem tidyCode_initialised_union :
    (∃ left between right, tidyCode .javascript (some "typescript".toList)
        (initialised "let x: Map".toList "string, number".toList [' '] [' '] "y".toList) =
          .ok (initialised left "string, number".toList between [] right) ∧
      between ≠ [] ∧ between.all isBlank = true) ∧
    ∃ left right, tidyCode .javascript (some "typescript".toList)
        (initialised "let x: Map".toList "string | number".toList [' '] [' '] "y".toList) =
          .ok (left ++ '>' :: '=' :: right) ∧
      solid left = "letx:Map<string|number".toList ∧ solid right = ['y'] := by
  constructor
  · obtain ⟨out, htidy, hkept, _⟩ := @tidyCode_initialised "let x: Map".toList "string, number".toList
      [' '] [' '] "y".toList .javascript (some "typescript".toList) (.inl rfl) (by decide) rfl rfl rfl
      (by decide +kernel) (Nat.le_trans (by decide) Literal.addressLimit_le)
    obtain ⟨left, between, right, hout, hne, hblank, _⟩ :=
      hkept ⟨by decide +kernel, by decide +kernel, by decide +kernel⟩
    exact ⟨left, between, right, by rw [htidy, hout], hne, hblank⟩
  · obtain ⟨out, htidy, _, hfused⟩ := @tidyCode_initialised "let x: Map".toList "string | number".toList
      [' '] [' '] "y".toList .javascript (some "typescript".toList) (.inl rfl) (by decide) rfl rfl rfl
      (by decide +kernel) (Nat.le_trans (by decide) Literal.addressLimit_le)
    obtain ⟨left, right, hout, hleft, hright⟩ := hfused ⟨by decide +kernel, by decide +kernel⟩
    exact ⟨left, right, by rw [htidy, hout], hleft, hright⟩

end Line

end SourceLayout
