import SourceLayout.Text.LineBreak

/-!
# Tokens of a text

The tokens of a text are its longest runs of word characters and every other character that is no
blank, taken alone. Spacing a text anew is harmless when it keeps the tokens. Which characters make
up words is a parameter, since a text in which literals are masked has more of them.
-/

namespace SourceLayout

/-- The characters that words are made of. No blank is among them. -/
structure WordClass where
  has : Char → Bool
  isBlank_eq_false : ∀ c, has c = true → isBlank c = false

/-- A character that is a token by itself wherever it stands. -/
def WordClass.isPoint (words : WordClass) (c : Char) : Bool :=
  !isBlank c && !words.has c

theorem isWord_of_isBlank (c : Char) (hblank : isBlank c = true) : isWord c = false := by
  rw [← Char.ofNat_toNat c]
  simp only [isBlank, decide_eq_true_eq] at hblank
  generalize c.toNat = point at hblank
  clear c
  revert point
  decide +kernel

/-- Letters, numerals and the underscore. -/
def WordClass.plain : WordClass where
  has := isWord
  isBlank_eq_false := by
    intro c hword
    cases hblank : isBlank c with
    | false => rfl
    | true =>
        rw [isWord_of_isBlank c hblank] at hword
        exact absurd hword (by simp)

/-- Words that may hold some more characters. -/
def WordClass.adding (words : WordClass) (extra : Text)
    (hextra : ∀ c ∈ extra, isBlank c = false) : WordClass where
  has c := words.has c || extra.contains c
  isBlank_eq_false := by
    intro c hword
    simp only [Bool.or_eq_true, List.contains_iff_mem] at hword
    rcases hword with hold | hmem
    · exact words.isBlank_eq_false c hold
    · exact hextra c hmem

namespace Text

variable (words : WordClass)

def tokens : Text → List Text
  | [] => []
  | c :: cs =>
      if isBlank c then tokens cs
      else if words.has c && headIs words.has cs then consFirst c (tokens cs)
      else [c] :: tokens cs

/-- No word runs from the end of the first text into the second. -/
def Separated (left right : Text) : Prop :=
  headIs words.has left.reverse = true → headIs words.has right = false

@[simp]
theorem tokens_nil : tokens words [] = [] :=
  rfl

variable {words}

theorem tokens_blank_cons {c : Char} (hblank : isBlank c = true) (t : Text) :
    tokens words (c :: t) = tokens words t := by
  simp [tokens, hblank]

theorem tokens_ne_nil {t : Text} (hhead : headIs words.has t = true) : tokens words t ≠ [] := by
  cases t with
  | nil => simp at hhead
  | cons c cs =>
      have hblank := words.isBlank_eq_false c hhead
      rw [tokens, if_neg (by simp [hblank])]
      split
      · cases tokens words cs <;> simp [consFirst]
      · simp

theorem Separated.of_nil_left (right : Text) : Separated words [] right := by
  intro hlast
  simp at hlast

theorem Separated.of_head {right : Text} (hhead : headIs words.has right = false) (left : Text) :
    Separated words left right := by
  intro _
  exact hhead

theorem Separated.of_last {left : Text} (hlast : headIs words.has left.reverse = false)
    (right : Text) : Separated words left right := by
  intro hword
  rw [hlast] at hword
  exact absurd hword (by simp)

theorem headIs_append {p : Char → Bool} {left : Text} (hne : left ≠ []) (right : Text) :
    headIs p (left ++ right) = headIs p left := by
  cases left with
  | nil => exact absurd rfl hne
  | cons c cs => rfl

theorem headIs_dropWhile (p : Char → Bool) (t : Text) : headIs p (t.dropWhile p) = false := by
  induction t with
  | nil => rfl
  | cons c cs ih =>
      rw [List.dropWhile_cons]
      split
      next => exact ih
      next hc => simpa using hc

theorem headIs_reverse_cons {p : Char → Bool} {t : Text} (hne : t ≠ []) (c : Char) :
    headIs p (c :: t).reverse = headIs p t.reverse := by
  rw [List.reverse_cons, headIs_append (by simpa using hne)]

theorem Separated.of_cons {c : Char} {left right : Text}
    (hsep : Separated words (c :: left) right) : Separated words left right := by
  by_cases hne : left = []
  · subst hne
    exact Separated.of_nil_left right
  · intro hlast
    exact hsep (by rwa [headIs_reverse_cons hne])

theorem Separated.drop {left right : Text} (hsep : Separated words left right) (count : Nat) :
    Separated words (left.drop count) right := by
  induction left generalizing count with
  | nil => simpa using hsep
  | cons c cs ih =>
      cases count with
      | zero => exact hsep
      | succ count => exact ih hsep.of_cons count

theorem tokens_append {left right : Text} (hsep : Separated words left right) :
    tokens words (left ++ right) = tokens words left ++ tokens words right := by
  induction left with
  | nil => rfl
  | cons c cs ih =>
      have htail := ih hsep.of_cons
      by_cases hblank : isBlank c = true
      · rw [List.cons_append, tokens_blank_cons hblank, tokens_blank_cons hblank, htail]
      · simp only [List.cons_append, tokens, hblank, htail]
        by_cases hne : cs = []
        · subst hne
          have hstop : (words.has c && headIs words.has right) = false := by
            cases hword : words.has c with
            | false => rfl
            | true => simpa using hsep (by simpa using hword)
          simp [hstop]
        · rw [headIs_append hne]
          cases hjoin : words.has c && headIs words.has cs with
          | false => simp
          | true =>
              have hhead : headIs words.has cs = true := by simp_all
              cases hfirst : tokens words cs with
              | nil => exact absurd hfirst (tokens_ne_nil hhead)
              | cons first rest => simp [consFirst]

theorem tokens_append_point {c : Char} (hpoint : words.isPoint c = true) (left right : Text) :
    tokens words (left ++ c :: right) = tokens words left ++ [c] :: tokens words right := by
  simp only [WordClass.isPoint, Bool.and_eq_true, Bool.not_eq_true'] at hpoint
  rw [tokens_append (Separated.of_head (by simpa using hpoint.2) left)]
  simp [tokens, hpoint.1, hpoint.2]

/-! ### Gaps -/

theorem headIs_of_blanks {gap : Text} (hgap : gap.all isBlank = true) :
    headIs words.has gap = false := by
  cases gap with
  | nil => rfl
  | cons c cs =>
      cases hword : words.has c with
      | false => simpa using hword
      | true => simp [words.isBlank_eq_false c hword] at hgap

theorem headIs_reverse_of_blanks {gap : Text} (hgap : gap.all isBlank = true) :
    headIs words.has gap.reverse = false :=
  headIs_of_blanks (by simpa using hgap)

theorem tokens_blanks_append {gap : Text} (hgap : gap.all isBlank = true) (t : Text) :
    tokens words (gap ++ t) = tokens words t := by
  induction gap with
  | nil => rfl
  | cons c cs ih =>
      simp only [List.all_cons, Bool.and_eq_true] at hgap
      rw [List.cons_append, tokens_blank_cons hgap.1, ih hgap.2]

theorem tokens_blanks {gap : Text} (hgap : gap.all isBlank = true) : tokens words gap = [] := by
  have happend := @tokens_blanks_append words gap hgap []
  rwa [List.append_nil] at happend

theorem tokens_append_blanks {gap : Text} (hgap : gap.all isBlank = true) (t : Text) :
    tokens words (t ++ gap) = tokens words t := by
  rw [tokens_append (Separated.of_head (headIs_of_blanks hgap) t), tokens_blanks hgap,
    List.append_nil]

theorem tokens_append_gap {gap : Text} (hgap : gap.all isBlank = true) (hne : gap ≠ [])
    (left right : Text) :
    tokens words (left ++ gap ++ right) = tokens words left ++ tokens words right := by
  have hlast : Separated words (left ++ gap) right := by
    refine Separated.of_last ?_ right
    rw [List.reverse_append, headIs_append (by simpa using hne)]
    exact headIs_reverse_of_blanks hgap
  rw [tokens_append hlast, tokens_append_blanks hgap]

theorem tokens_trimLeft (t : Text) : tokens words t.trimLeft = tokens words t := by
  have hgap : (t.takeWhile isBlank).all isBlank = true := List.all_takeWhile
  calc tokens words t.trimLeft
      = tokens words (t.takeWhile isBlank ++ t.trimLeft) := (tokens_blanks_append hgap _).symm
    _ = tokens words t := by rw [trimLeft, List.takeWhile_append_dropWhile]

/-- The blanks that trimming on the right takes away. -/
theorem trimRight_append (t : Text) :
    ∃ gap : Text, gap.all isBlank = true ∧ t.trimRight ++ gap = t := by
  refine ⟨(t.reverse.takeWhile isBlank).reverse, ?_, ?_⟩
  · rw [List.all_reverse]
    exact List.all_takeWhile
  · rw [trimRight, ← List.reverse_append, List.takeWhile_append_dropWhile, List.reverse_reverse]

theorem trimLeft_sublist (t : Text) : t.trimLeft.Sublist t :=
  (List.dropWhile_suffix isBlank).sublist

theorem trimRight_sublist (t : Text) : t.trimRight.Sublist t := by
  obtain ⟨gap, _, hsplit⟩ := trimRight_append t
  have hfront := List.sublist_append_left t.trimRight gap
  rwa [hsplit] at hfront

theorem trim_sublist (t : Text) : t.trim.Sublist t :=
  (trimRight_sublist _).trans (trimLeft_sublist t)

theorem tokens_trimRight (t : Text) : tokens words t.trimRight = tokens words t := by
  obtain ⟨gap, hgap, hsplit⟩ := trimRight_append t
  calc tokens words t.trimRight
      = tokens words (t.trimRight ++ gap) := (tokens_append_blanks hgap _).symm
    _ = tokens words t := by rw [hsplit]

theorem tokens_trim (t : Text) : tokens words t.trim = tokens words t := by
  rw [trim, tokens_trimRight, tokens_trimLeft]

theorem tokens_eq_nil_iff (t : Text) : tokens words t = [] ↔ t.isEmptyLine = true := by
  refine ⟨fun hnil => ?_, fun hblank => tokens_blanks hblank⟩
  induction t with
  | nil => rfl
  | cons c cs ih =>
      by_cases hblank : isBlank c = true
      · rw [tokens_blank_cons hblank] at hnil
        simpa [isEmptyLine, hblank] using ih hnil
      · rw [tokens, if_neg hblank] at hnil
        split at hnil
        · cases htail : tokens words cs <;> simp [htail, consFirst] at hnil
        · simp at hnil

theorem cutAt_prefix {p : Char → Bool} {t first : Text} {rest : List Text}
    (hcut : cutAt p t = first :: rest) : first <+: t := by
  induction t generalizing first rest with
  | nil =>
      cases hcut
      exact List.nil_prefix
  | cons d ds ih =>
      rw [cutAt] at hcut
      split at hcut
      next =>
          cases hcut
          exact List.nil_prefix
      next =>
          split at hcut
          next hnil => exact absurd hnil (cutAt_ne_nil _ _)
          next first' rest' hrest =>
              cases hcut
              exact List.cons_prefix_cons.mpr ⟨rfl, ih hrest⟩

/-- What stands between two cuts is a part of the text, with nothing to cut at. -/
theorem of_mem_cutAt {p : Char → Bool} {t chunk : Text} (hchunk : chunk ∈ cutAt p t) :
    chunk <:+: t ∧ ∀ c ∈ chunk, p c = false := by
  induction t generalizing chunk with
  | nil =>
      obtain rfl : chunk = [] := by simpa [cutAt] using hchunk
      exact ⟨List.infix_rfl, by simp⟩
  | cons d ds ih =>
      rw [cutAt] at hchunk
      split at hchunk
      next =>
          rcases List.mem_cons.mp hchunk with rfl | hchunk
          · exact ⟨List.nil_prefix.isInfix, by simp⟩
          · exact (ih hchunk).imp_left fun hpart => List.infix_cons hpart
      next hd =>
          cases hcut : cutAt p ds with
          | nil => exact absurd hcut (cutAt_ne_nil _ _)
          | cons first rest =>
              rw [hcut] at hchunk ih
              rcases List.mem_cons.mp hchunk with rfl | hchunk
              · have hfront : d :: first <+: d :: ds :=
                  List.cons_prefix_cons.mpr ⟨rfl, cutAt_prefix hcut⟩
                refine ⟨hfront.isInfix, ?_⟩
                simp only [List.mem_cons, forall_eq_or_imp]
                exact ⟨by simpa using hd, (ih List.mem_cons_self).2⟩
              · exact (ih (List.mem_cons_of_mem first hchunk)).imp_left fun hpart =>
                  List.infix_cons hpart

/-! ### Reading a text token by token -/

/-- A text as blanks and separated tokens. -/
inductive Tokenized (words : WordClass) : Text → List Text → Prop
  | nil : Tokenized words [] []
  | blank {c : Char} {t : Text} {ts : List Text} (hblank : isBlank c = true)
      (hrest : Tokenized words t ts) : Tokenized words (c :: t) ts
  | token {tok t : Text} {ts : List Text} (htok : tokens words tok = [tok])
      (hsep : Separated words tok t) (hrest : Tokenized words t ts) :
      Tokenized words (tok ++ t) (tok :: ts)

theorem Tokenized.tokens_eq {t : Text} {ts : List Text} (h : Tokenized words t ts) :
    tokens words t = ts := by
  induction h with
  | nil => rfl
  | blank hblank _ ih => rw [tokens_blank_cons hblank, ih]
  | token htok hsep _ ih => rw [tokens_append hsep, htok, ih, List.singleton_append]

theorem tokens_singleton {c : Char} (hblank : isBlank c = false) : tokens words [c] = [[c]] := by
  simp [tokens, hblank]

theorem tokens_word_cons {c : Char} (hword : words.has c = true) {tok : Text}
    (hhead : headIs words.has tok = true) (htok : tokens words tok = [tok]) :
    tokens words (c :: tok) = [c :: tok] := by
  simp [tokens, words.isBlank_eq_false c hword, hword, hhead, htok, consFirst]

theorem tokenized (words : WordClass) (t : Text) : Tokenized words t (tokens words t) := by
  induction t with
  | nil => exact .nil
  | cons c cs ih =>
      by_cases hblank : isBlank c = true
      · rw [tokens_blank_cons hblank]
        exact .blank hblank ih
      · rw [tokens, if_neg hblank]
        split
        next hjoin =>
            simp only [Bool.and_eq_true] at hjoin
            -- The rest starts with a word, so its first token takes `c` in.
            cases hrest : tokens words cs with
            | nil => exact absurd hrest (tokens_ne_nil hjoin.2)
            | cons first rest =>
                rw [hrest] at ih
                cases ih with
                | blank hfirst _ =>
                    have := words.isBlank_eq_false _ hjoin.2
                    simp [this] at hfirst
                | @token _ t' _ htok hsep hrest' =>
                    have hne : first ≠ [] := by
                      rintro rfl
                      simp at htok
                    have hhead : headIs words.has first = true := by
                      rw [← headIs_append hne t']
                      exact hjoin.2
                    have hsep' : Separated words (c :: first) t' := by
                      intro hlast
                      exact hsep (by rwa [headIs_reverse_cons hne] at hlast)
                    exact .token (tokens_word_cons hjoin.1 hhead htok) hsep' hrest'
        next hjoin =>
            have hsep : Separated words [c] cs := by
              intro hlast
              cases hhead : headIs words.has cs with
              | false => rfl
              | true =>
                  exfalso
                  apply hjoin
                  simpa [hhead] using hlast
            exact .token (tokens_singleton (by simpa using hblank)) hsep ih

theorem tokens_of_forall {word : Text} (hne : word ≠ []) (hword : ∀ c ∈ word, words.has c = true) :
    tokens words word = [word] := by
  induction word with
  | nil => exact absurd rfl hne
  | cons c cs ih =>
      have hc := hword c List.mem_cons_self
      cases cs with
      | nil => exact tokens_singleton (words.isBlank_eq_false c hc)
      | cons d ds =>
          have hrest := ih (by simp) fun e he => hword e (List.mem_cons_of_mem c he)
          exact tokens_word_cons hc (hword d (by simp)) hrest

/-- The first token stands after a gap, and no word runs out of it. -/
theorem exists_of_tokens_eq_cons {t tok : Text} {toks : List Text}
    (htokens : tokens words t = tok :: toks) :
    ∃ gap t', t = gap ++ (tok ++ t') ∧ gap.all isBlank = true ∧ Separated words tok t' ∧
      tokens words t' = toks := by
  have hread := tokenized words t
  rw [htokens] at hread
  generalize hall : tok :: toks = all at hread
  induction hread with
  | nil => cases hall
  | @blank c t toks hblank hrest ih =>
      rw [tokens_blank_cons hblank] at htokens
      obtain ⟨gap, t', rfl, hgap, hsep, htoks⟩ := ih htokens hall
      exact ⟨c :: gap, t', rfl, by simp [hblank, hgap], hsep, htoks⟩
  | @token tok t toks _ hsep hrest _ =>
      cases hall
      exact ⟨[], t, rfl, rfl, hsep, hrest.tokens_eq⟩

/-- The tokens of a smaller class are found inside those of a larger one. -/
theorem tokens_refine {small large : WordClass}
    (hsub : ∀ c, small.has c = true → large.has c = true) (t : Text) : tokens small t = (tokens large t).flatMap (tokens small) := by
  have hhead : ∀ u : Text, headIs small.has u = true → headIs large.has u = true := by
    intro u hu
    cases u with
    | nil => simp at hu
    | cons c cs => exact hsub c hu
  have htokens := tokenized large t
  generalize tokens large t = ts at htokens
  induction htokens with
  | nil => rfl
  | blank hblank _ ih => rw [tokens_blank_cons hblank, ih]
  | @token tok rest _ _ hsep _ ih =>
      have hsmall : Separated small tok rest := by
        intro hlast
        cases hword : headIs small.has rest with
        | false => rfl
        | true =>
            have hlarge := hhead _ hword
            rw [hsep (hhead _ hlast)] at hlarge
            exact absurd hlarge (by simp)
      rw [tokens_append hsmall, ih, List.flatMap_cons]

/-! ### Characters that do not occur -/

/-- None of some characters occurs in a text. -/
def Lacks (absent t : Text) : Prop :=
  ∀ c ∈ t, c ∉ absent

theorem Lacks.of_append_left {absent left right : Text} (hlacks : Lacks absent (left ++ right)) :
    Lacks absent left :=
  fun c hc => hlacks c (List.mem_append_left right hc)

theorem Lacks.of_append_right {absent left right : Text} (hlacks : Lacks absent (left ++ right)) :
    Lacks absent right :=
  fun c hc => hlacks c (List.mem_append_right left hc)

/-- Characters that are no blanks can be looked up in the tokens. -/
theorem lacks_iff_tokens {absent : Text} (hblank : ∀ c ∈ absent, isBlank c = false) (t : Text) :
    Lacks absent t ↔ ∀ tok ∈ tokens words t, Lacks absent tok := by
  have htokens := tokenized words t
  generalize tokens words t = ts at htokens
  induction htokens with
  | nil => simp [Lacks]
  | @blank c t ts hc _ ih =>
      have hnot : c ∉ absent := fun hmem => by simp [hblank c hmem] at hc
      refine Iff.trans ?_ ih
      simp [Lacks, hnot]
  | @token tok t ts _ _ _ ih =>
      have happend : Lacks absent (tok ++ t) ↔ Lacks absent tok ∧ Lacks absent t := by
        simp only [Lacks, List.mem_append, or_imp, forall_and]
      refine happend.trans ((and_congr_right fun _ => ih).trans ?_)
      simp only [List.mem_cons, forall_eq_or_imp]

/-! ### Texts that can stand for each other -/

/-- Whatever stands around them, two texts give the same tokens. -/
def Respaced (words : WordClass) (old new : Text) : Prop :=
  ∀ left right : Text, tokens words (left ++ old ++ right) = tokens words (left ++ new ++ right)

namespace Respaced

theorem refl (t : Text) : Respaced words t t :=
  fun _ _ => rfl

theorem trans {a b c : Text} (hab : Respaced words a b) (hbc : Respaced words b c) :
    Respaced words a c :=
  fun left right => (hab left right).trans (hbc left right)

theorem append {a b c d : Text} (hab : Respaced words a b) (hcd : Respaced words c d) :
    Respaced words (a ++ c) (b ++ d) := by
  intro left right
  calc tokens words (left ++ (a ++ c) ++ right)
      = tokens words (left ++ a ++ (c ++ right)) := by simp
    _ = tokens words (left ++ b ++ (c ++ right)) := hab _ _
    _ = tokens words (left ++ b ++ c ++ right) := by simp
    _ = tokens words (left ++ b ++ d ++ right) := hcd _ _
    _ = tokens words (left ++ (b ++ d) ++ right) := by simp

theorem append_left (a : Text) {b c : Text} (hbc : Respaced words b c) :
    Respaced words (a ++ b) (a ++ c) :=
  (refl a).append hbc

theorem append_right {a b : Text} (hab : Respaced words a b) (c : Text) :
    Respaced words (a ++ c) (b ++ c) :=
  hab.append (refl c)

theorem cons (c : Char) {a b : Text} (hab : Respaced words a b) :
    Respaced words (c :: a) (c :: b) :=
  hab.append_left [c]

theorem tokens_eq {a b : Text} (hab : Respaced words a b) : tokens words a = tokens words b := by
  simpa using hab [] []

/-- A gap before a point may be of any width. -/
theorem gap_point {c : Char} (hpoint : words.isPoint c = true) {old new : Text}
    (hold : old.all isBlank = true) (hnew : new.all isBlank = true) :
    Respaced words (old ++ [c]) (new ++ [c]) := by
  have hdrop : ∀ gap : Text, gap.all isBlank = true → ∀ left right : Text,
      tokens words (left ++ (gap ++ [c]) ++ right) =
        tokens words left ++ [c] :: tokens words right := by
    intro gap hgap left right
    calc tokens words (left ++ (gap ++ [c]) ++ right)
        = tokens words (left ++ gap ++ c :: right) := by simp
      _ = tokens words left ++ [c] :: tokens words right := by
          rw [tokens_append_point hpoint, tokens_append_blanks hgap]
  intro left right
  rw [hdrop old hold, hdrop new hnew]

/-- A gap after a point may be of any width. -/
theorem point_gap {c : Char} (hpoint : words.isPoint c = true) {old new : Text}
    (hold : old.all isBlank = true) (hnew : new.all isBlank = true) :
    Respaced words (c :: old) (c :: new) := by
  have hdrop : ∀ gap : Text, gap.all isBlank = true → ∀ left right : Text,
      tokens words (left ++ c :: gap ++ right) =
        tokens words left ++ [c] :: tokens words right := by
    intro gap hgap left right
    calc tokens words (left ++ c :: gap ++ right)
        = tokens words (left ++ c :: (gap ++ right)) := by simp
      _ = tokens words left ++ [c] :: tokens words right := by
          rw [tokens_append_point hpoint, tokens_blanks_append hgap]
  intro left right
  rw [hdrop old hold, hdrop new hnew]

theorem drop_gap_point {c : Char} (hpoint : words.isPoint c = true) {gap : Text}
    (hgap : gap.all isBlank = true) : Respaced words (gap ++ [c]) [c] := by
  have hnil := @gap_point words c hpoint gap [] hgap rfl
  rwa [List.nil_append] at hnil

theorem drop_point_gap {c : Char} (hpoint : words.isPoint c = true) {gap : Text}
    (hgap : gap.all isBlank = true) : Respaced words (c :: gap) [c] :=
  point_gap hpoint hgap rfl

/-- A gap stays a gap. -/
theorem gap {old new : Text} (hold : old.all isBlank = true) (hnew : new.all isBlank = true)
    (holdNe : old ≠ []) (hnewNe : new ≠ []) : Respaced words old new := by
  intro left right
  rw [tokens_append_gap hold holdNe, tokens_append_gap hnew hnewNe]

end Respaced

end Text

end SourceLayout
