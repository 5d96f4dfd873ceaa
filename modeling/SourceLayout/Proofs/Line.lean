import SourceLayout.Line
import SourceLayout.Proofs.Literal.Content
import SourceLayout.Proofs.Literal.RoundTrip
import SourceLayout.Proofs.Spacing.Rules

/-!
# Tidying a line keeps its tokens

The rules see the code of a line with its literals masked and keep the tokens of that; restoring
sees nothing but those tokens. So tidying code succeeds exactly where masking and restoring it
does, and gives the same tokens.
-/

namespace SourceLayout

open Text (tokens Respaced)

variable {words : WordClass}

namespace Comment

theorem respaced_squeezeRuns (t : Text) : Respaced words t (squeezeRuns t) := by
  fun_induction squeezeRuns t with
  | case1 => exact Respaced.refl []
  | case2 c => exact Respaced.refl [c]
  | case3 c d hblanks e cs he ih =>
      have hgap : Respaced words [c, d] [d] :=
        Respaced.gap (by simpa using hblanks) (by simp_all) (by simp) (by simp)
      exact (hgap.append_right (e :: cs)).trans ih
  | case4 c d hblanks e cs he ih =>
      have hgap : Respaced words [c, d] [' '] :=
        Respaced.gap (by simpa using hblanks) (by decide) (by simp) (by simp)
      exact hgap.append ih
  | case5 c d hblanks =>
      exact Respaced.gap (by simpa using hblanks) (by decide) (by simp) (by simp)
  | case6 c d cs hblanks ih => exact ih.cons c

theorem mem_squeezeRuns {t : Text} {c : Char} (hc : c ∈ squeezeRuns t) : c ∈ t ∨ c = ' ' := by
  fun_induction squeezeRuns t with
  | case1 => exact .inl hc
  | case2 d => exact .inl hc
  | case3 d d' hblanks e cs he ih => grind
  | case4 d d' hblanks e cs he ih => grind
  | case5 d d' hblanks => grind
  | case6 d d' cs hblanks ih => grind

/-- A marker that a blank follows gets one space instead of all the blanks. -/
theorem respaced_led {c : Char} (hblank : isBlank c = true) (marker cs : Text) :
    Respaced words (marker ++ c :: cs) (marker ++ ' ' :: Text.trimLeft cs) := by
  have hsplit : cs.takeWhile isBlank ++ Text.trimLeft cs = cs := List.takeWhile_append_dropWhile
  have hgap : Respaced words (c :: cs.takeWhile isBlank) [' '] :=
    Respaced.gap (by simp [hblank]) (by decide) (by simp) (by simp)
  have hspaced := (hgap.append_right (Text.trimLeft cs)).append_left marker
  rwa [List.cons_append, hsplit] at hspaced

theorem tokens_normalize (comment : Text) :
    tokens words (normalize comment) = tokens words comment := by
  rw [normalize, ← (respaced_squeezeRuns _).tokens_eq, ← Text.tokens_trim comment]
  split
  next c cs htrim =>
      split
      next hblank =>
          rw [htrim]
          exact (respaced_led hblank ['/', '/'] cs).tokens_eq.symm
      next => rfl
  next _ c cs htrim =>
      split
      next hblank =>
          rw [htrim]
          exact (respaced_led hblank ['#'] cs).tokens_eq.symm
      next => rfl
  next => rfl

theorem mem_normalize {comment : Text} {c : Char} (hc : c ∈ normalize comment) :
    c ∈ comment ∨ c = ' ' := by
  rw [normalize] at hc
  rcases mem_squeezeRuns hc with hled | hspace
  · have htrim : c ∈ comment.trim → c ∈ comment := fun hmem => (Text.trim_sublist _).subset hmem
    have hleft : ∀ t : Text, c ∈ t.trimLeft → c ∈ t :=
      fun t hmem => (Text.trimLeft_sublist t).subset hmem
    split at hled
    next => grind
    next => grind
    next => exact .inl (htrim hled)
  · exact .inr hspace

/-! ### Where a comment starts -/

theorem opensComment_of_startFrom {family : Family} {previous inside : Option Char} {t : Text}
    {place : Nat} (hstart : startFrom family previous inside t = some place) :
    family.opensComment (t.drop place) = true := by
  induction t generalizing previous inside place with
  | nil => simp [startFrom] at hstart
  | cons c cs ih =>
      cases inside with
      | some stop =>
          simp only [startFrom] at hstart
          obtain ⟨place, hplace, rfl⟩ := Option.map_eq_some_iff.mp hstart
          exact ih hplace
      | none =>
          simp only [startFrom] at hstart
          split at hstart
          next hopens =>
              cases hstart
              exact hopens
          next =>
              obtain ⟨place, hplace, rfl⟩ := Option.map_eq_some_iff.mp hstart
              exact ih hplace

/-- A comment starts with a sign that is no part of a word. -/
theorem headIs_of_opensComment (hslash : words.isPoint '/' = true)
    (hhash : words.isPoint '#' = true) {family : Family} {t : Text} (hopens : family.opensComment t = true) :
    headIs words.has t = false := by
  simp only [WordClass.isPoint, Bool.and_eq_true, Bool.not_eq_true'] at hslash hhash
  unfold Family.opensComment at hopens
  split at hopens
  · exact hslash.2
  · exact hslash.2
  · exact hhash.2
  · simp at hopens

theorem tokens_split (hslash : words.isPoint '/' = true) (hhash : words.isPoint '#' = true)
    (family : Family) (line : Text) :
    tokens words (split family line).code ++ tokens words (split family line).comment =
      tokens words line := by
  rw [split]
  split
  next => simp
  next place hstart =>
      have hhead := headIs_of_opensComment hslash hhash (opensComment_of_startFrom hstart)
      rw [Text.tokens_trimRight, ← Text.tokens_append (Text.Separated.of_head hhead _),
        List.take_append_drop]

theorem split_code_sublist (family : Family) (line : Text) :
    (split family line).code.Sublist line := by
  rw [split]
  split
  next => exact List.Sublist.refl line
  next place _ => exact (Text.trimRight_sublist _).trans (List.take_sublist place line)

theorem split_comment_sublist (family : Family) (line : Text) :
    (split family line).comment.Sublist line := by
  rw [split]
  split
  next => exact List.nil_sublist line
  next place _ => exact List.drop_sublist place line

/-- A line without comment signs holds no comment. -/
theorem split_eq_self {family : Family} {line : Text} (hslash : '/' ∉ line) (hhash : '#' ∉ line) :
    split family line = ⟨line, []⟩ := by
  rw [split]
  split
  next => rfl
  next place hstart =>
      have hopens := opensComment_of_startFrom hstart
      have hmem : ∀ c ∈ line.drop place, c ∈ line := fun c hc => List.mem_of_mem_drop hc
      unfold Family.opensComment at hopens
      split at hopens <;> simp_all

theorem startsWith_eq_false {t start : Text} {c : Char} (hhead : headIs (· == c) t = false) :
    t.startsWith (c :: start) = false := by
  cases t with
  | nil => rfl
  | cons d ds =>
      have hne : d ≠ c := by simpa using hhead
      simp [Text.startsWith, List.isPrefixOf, Ne.symm hne]

theorem isBlockLine_eq_false {line : Text} (hslash : headIs (· == '/') line = false)
    (hstar : headIs (· == '*') line = false) (hlast : headIs (· == '/') line.reverse = false) :
    isBlockLine line = false := by
  have hne : line ≠ ['*'] := by
    rintro rfl
    simp at hstar
  have hend : line.endsWith ['*', '/'] = false := startsWith_eq_false hlast
  simp [isBlockLine, startsWith_eq_false hslash, startsWith_eq_false hstar, hend, hne]

end Comment

namespace Line

open Literal (mask restore markOpen isForeign numberLimit Masked)

theorem restore_mask_nil (family : Family) (language : Option Text) :
    restore (mask family language []) = .ok [] :=
  (Literal.stands_mask family language (by simp)).restore_eq (by simp)

/-- Tidying code gives the tokens that masking and restoring it gives, or fails with it. -/
theorem tidyCode_tokens (family : Family) (language : Option Text) (code : Text) :
    (tidyCode family language code).map (tokens .marked) =
      (restore (mask family language code.trim)).map (tokens .marked) := by
  rw [tidyCode]
  split
  next hempty =>
      have htrim : code.trim = [] := by simpa using hempty
      rw [htrim, restore_mask_nil]
  next => exact Literal.restore_tokens _ (Spacing.tokens_rules family language _)

theorem mem_tidyCode {family : Family} {language : Option Text} {code out : Text} {c : Char}
    (hforeign : isForeign c = true) (htidy : tidyCode family language code = .ok out)
    (hc : c ∈ out) : c ∈ code ∨ c = ' ' := by
  rw [tidyCode] at htidy
  split at htidy
  next =>
      cases htidy
      simp at hc
  next =>
      have hmask := @Literal.mem_of_holds_mask c hforeign family language code.trim
      rcases Literal.holds_of_restore htidy hc with htext | hliteral
      · rcases Spacing.mem_applyAll htext with htext | hspace
        · exact .inl ((Text.trim_sublist code).subset (hmask (.inl htext)))
        · exact .inr hspace
      · exact .inl ((Text.trim_sublist code).subset (hmask (.inr hliteral)))

/-- Masking the code of a line can be undone, or the line is a comment as a whole. -/
def Restorable (family : Family) (language : Option Text) (line : Text) : Prop :=
  isComment family line.trim = true ∨
    ∃ code, restore (mask family language (Comment.split family line.trim).code.trim) = .ok code

theorem tokens_tidyComment (family : Family) (line : Text) :
    tokens words (tidyComment family line) = tokens words line := by
  cases family with
  | html => rfl
  | css => rfl
  | javascript => exact Comment.tokens_normalize line
  | python => exact Comment.tokens_normalize line
  | cFamily => exact Comment.tokens_normalize line

theorem mem_tidyComment {family : Family} {line : Text} {c : Char}
    (hc : c ∈ tidyComment family line) : c ∈ line ∨ c = ' ' := by
  cases family with
  | html => exact .inl hc
  | css => exact .inl hc
  | javascript => exact Comment.mem_normalize hc
  | python => exact Comment.mem_normalize hc
  | cFamily => exact Comment.mem_normalize hc

/-- A tidied line is its tidied code and its normalized comment, if there is one, with a space
between the two. -/
def assemble (code comment : Text) : Text :=
  if comment.isEmpty then code
  else if code.isEmpty then Comment.normalize comment
  else code ++ ' ' :: Comment.normalize comment

theorem tokens_assemble (code comment : Text) :
    tokens words (assemble code comment) = tokens words code ++ tokens words comment := by
  rw [assemble]
  split
  next hcomment =>
      have hnil : comment = [] := by simpa using hcomment
      simp [hnil]
  next =>
      split
      next hcode =>
          have hnil : code = [] := by simpa using hcode
          simp [hnil, Comment.tokens_normalize]
      next =>
          have hgap : [' '].all isBlank = true := by decide
          have htokens := @Text.tokens_append_gap words _ hgap (by simp) code
            (Comment.normalize comment)
          rwa [List.append_assoc, List.singleton_append, Comment.tokens_normalize] at htokens

theorem mem_assemble {code comment : Text} {c : Char} (hc : c ∈ assemble code comment) :
    c ∈ code ∨ c ∈ comment ∨ c = ' ' := by
  have hnormalize := @Comment.mem_normalize comment c
  rw [assemble] at hc
  grind

theorem tidy_eq (family : Family) (language : Option Text) (line : Text) :
    tidy family language line =
      if isComment family line.trim then .ok (tidyComment family line.trim)
      else (tidyCode family language (Comment.split family line.trim).code).map fun code =>
        assemble code (Comment.split family line.trim).comment := by
  rw [tidy]
  by_cases hempty : line.trim = []
  · rw [hempty]
    cases family <;> rfl
  · rw [if_neg (by simpa using hempty)]
    split
    next => rfl
    next =>
        generalize Comment.split family line.trim = parts
        dsimp only
        cases tidyCode family language parts.code with
        | error error => rfl
        | ok code =>
            cases hcomment : parts.comment <;>
              simp [bind, Except.bind, pure, Except.pure, Except.map, assemble,
                Comment.Split.hasComment, hcomment]

theorem eq_ok_of_toOption {ε α : Type} {x : Except ε α} {a : α} (hx : x.toOption = some a) :
    x = .ok a := by
  cases x with
  | error error => cases hx
  | ok value => rw [Option.some.inj hx]

theorem exists_tidyCode_iff (family : Family) (language : Option Text) (code : Text) :
    (∃ out, tidyCode family language code = .ok out) ↔
      ∃ restored, restore (mask family language code.trim) = .ok restored := by
  have htokens := tidyCode_tokens family language code
  constructor
  · rintro ⟨out, hout⟩
    rw [hout] at htokens
    obtain ⟨restored, hrestored, _⟩ := exists_of_map_eq_ok htokens.symm
    exact ⟨restored, hrestored⟩
  · rintro ⟨restored, hrestored⟩
    rw [hrestored] at htokens
    obtain ⟨out, hout, _⟩ := exists_of_map_eq_ok htokens
    exact ⟨out, hout⟩

theorem exists_tidy_iff (family : Family) (language : Option Text) (line : Text) :
    (∃ out, tidy family language line = .ok out) ↔ Restorable family language line := by
  rw [tidy_eq, Restorable, ← exists_tidyCode_iff]
  split
  next hcomment => simp [hcomment]
  next hcomment =>
      simp only [hcomment, Bool.false_eq_true, false_or]
      cases tidyCode family language (Comment.split family line.trim).code <;> simp [Except.map]

theorem split_code_trim_sublist (family : Family) (line : Text) :
    (Comment.split family line.trim).code.trim.Sublist line :=
  (Text.trim_sublist _).trans
    ((Comment.split_code_sublist family line.trim).trans (Text.trim_sublist line))

/-- Without marks of its own, the code of a line comes back from masking. -/
theorem restore_mask_code (family : Family) (language : Option Text) {line : Text}
    (hplain : markOpen ∉ line) (hlength : line.length ≤ numberLimit) :
    restore (mask family language (Comment.split family line.trim).code.trim) =
      .ok (Comment.split family line.trim).code.trim := by
  have hsub := split_code_trim_sublist family line
  have hstands := Literal.stands_mask family language (mt (fun hmem => hsub.subset hmem) hplain)
  exact hstands.restore_eq (Nat.le_trans hsub.length_le hlength)

theorem restorable_of_plain (family : Family) (language : Option Text) {line : Text}
    (hplain : markOpen ∉ line) (hlength : line.length ≤ numberLimit) :
    Restorable family language line :=
  .inr ⟨_, restore_mask_code family language hplain hlength⟩

/-- Tidying keeps the tokens of a line without marks of its own. -/
theorem tokens_tidy {family : Family} {language : Option Text} {line out : Text}
    (hplain : markOpen ∉ line) (htidy : tidy family language line = .ok out) :
    tokens .marked out = tokens .marked line := by
  rw [tidy_eq] at htidy
  split at htidy
  next =>
      cases htidy
      rw [tokens_tidyComment, Text.tokens_trim]
  next =>
      obtain ⟨code, hcode, rfl⟩ := exists_of_map_eq_ok htidy
      have hsub := split_code_trim_sublist family line
      have hstands := Literal.stands_mask family language (mt (fun hmem => hsub.subset hmem) hplain)
      obtain ⟨restored, hrestored⟩ := (exists_tidyCode_iff family language _).mp ⟨code, hcode⟩
      have htokens := tidyCode_tokens family language (Comment.split family line.trim).code
      rw [hcode, hrestored, hstands.1.eq_of_restore hrestored] at htokens
      simp only [Except.map, Except.ok.injEq, Text.tokens_trim] at htokens
      rw [tokens_assemble, htokens, Comment.tokens_split (by decide +kernel) (by decide +kernel),
        Text.tokens_trim]

theorem mem_tidy {family : Family} {language : Option Text} {line out : Text} {c : Char}
    (hforeign : isForeign c = true) (htidy : tidy family language line = .ok out) (hc : c ∈ out) :
    c ∈ line ∨ c = ' ' := by
  have htrim : c ∈ line.trim → c ∈ line := fun hmem => (Text.trim_sublist line).subset hmem
  rw [tidy_eq] at htidy
  split at htidy
  next =>
      cases htidy
      exact (mem_tidyComment hc).imp_left htrim
  next =>
      obtain ⟨code, hcode, rfl⟩ := exists_of_map_eq_ok htidy
      rcases mem_assemble hc with hmem | hmem | hspace
      · refine (mem_tidyCode hforeign hcode hmem).imp_left fun hmem => htrim ?_
        exact (Comment.split_code_sublist family line.trim).subset hmem
      · exact .inl (htrim ((Comment.split_comment_sublist family line.trim).subset hmem))
      · exact .inr hspace

end Line

end SourceLayout
