import SourceLayout.Proofs.Trimmed

/-!
# Masking a tidied text again

The rules of a markup family change the gaps next to a few signs and no others. With everything else
taken for words, tidying keeps the tokens, and that is all that the finders of these families look
at: they find the same literals in the tidied text.
-/

namespace SourceLayout

/-- Words that hold everything but blanks and some signs. -/
def WordClass.except (signs : Text) : WordClass where
  has c := !isBlank c && !signs.contains c
  isBlank_eq_false := by
    intro c hword
    simp only [Bool.and_eq_true, Bool.not_eq_true'] at hword
    exact hword.1

namespace Text

variable {words : WordClass}

/-! ### Reading a text that has the tokens of another -/

theorem ne_nil_of_mem_tokens {t tok : Text} (htok : tok ∈ tokens words t) : tok ≠ [] := by
  induction t with
  | nil => simp at htok
  | cons c cs ih =>
      rw [tokens] at htok
      split at htok
      · exact ih htok
      · split at htok
        · cases htokens : tokens words cs with
          | nil =>
              rw [htokens] at htok
              simp only [consFirst, List.mem_singleton] at htok
              simp [htok]
          | cons first rest =>
              rw [htokens] at htok ih
              rcases List.mem_cons.mp htok with rfl | hlater
              · simp
              · exact ih (List.mem_cons_of_mem first hlater)
        · rcases List.mem_cons.mp htok with rfl | hlater
          · simp
          · exact ih hlater

/-- Whether two texts go on alike after a character. -/
def Alike (words : WordClass) (c : Char) (t t' : Text) : Prop :=
  tokens words t = tokens words t' ∧
    (words.has c = true → headIs words.has t = headIs words.has t')

theorem Alike.tokens_cons {c : Char} {t t' : Text} (h : Alike words c t t') :
    tokens words (c :: t) = tokens words (c :: t') := by
  rw [tokens, tokens, h.1]
  cases hword : words.has c with
  | false => simp
  | true => rw [h.2 hword]

theorem tokens_append_congr {t t' : Text} (htokens : tokens words t = tokens words t')
    (hhead : headIs words.has t = headIs words.has t') (left : Text) :
    tokens words (left ++ t) = tokens words (left ++ t') := by
  induction left with
  | nil => exact htokens
  | cons c cs ih =>
      refine Alike.tokens_cons ⟨ih, fun _ => ?_⟩
      cases cs with
      | nil => exact hhead
      | cons d ds => rfl

/-- A joined token is longer than a single character. -/
theorem consFirst_ne {u : Text} (hhead : headIs words.has u = true) (c d : Char) (ts : List Text) :
    consFirst c (tokens words u) ≠ [d] :: ts := by
  intro hjoin
  obtain ⟨first, rest, htokens⟩ := List.exists_cons_of_ne_nil (tokens_ne_nil hhead)
  have hne : first ≠ [] := ne_nil_of_mem_tokens (htokens ▸ List.mem_cons_self)
  rw [htokens, consFirst, List.cons.injEq, List.cons.injEq] at hjoin
  exact hne hjoin.1.2

theorem consFirst_inj {c d : Char} {ts ts' : List Text} (hne : ts ≠ []) (hne' : ts' ≠ [])
    (h : consFirst c ts = consFirst d ts') : c = d ∧ ts = ts' := by
  obtain ⟨first, rest, rfl⟩ := List.exists_cons_of_ne_nil hne
  obtain ⟨first', rest', rfl⟩ := List.exists_cons_of_ne_nil hne'
  simp only [consFirst, List.cons.injEq] at h
  exact ⟨h.1.1, by rw [h.1.2, h.2]⟩

theorem alike_of_tokens_cons {c d : Char} (hc : isBlank c = false) (hd : isBlank d = false)
    {t t' : Text} (h : tokens words (d :: t') = tokens words (c :: t)) :
    d = c ∧ Alike words c t' t := by
  rw [tokens, tokens, hc, hd, if_neg Bool.false_ne_true, if_neg Bool.false_ne_true] at h
  by_cases hjoined' : (words.has d && headIs words.has t') = true
  · rw [if_pos hjoined'] at h
    rw [Bool.and_eq_true] at hjoined'
    by_cases hjoined : (words.has c && headIs words.has t) = true
    · rw [if_pos hjoined] at h
      rw [Bool.and_eq_true] at hjoined
      obtain ⟨rfl, htokens⟩ :=
        consFirst_inj (tokens_ne_nil hjoined'.2) (tokens_ne_nil hjoined.2) h
      exact ⟨rfl, htokens, fun _ => hjoined'.2.trans hjoined.2.symm⟩
    · rw [if_neg hjoined] at h
      exact absurd h (consFirst_ne hjoined'.2 d c _)
  · rw [if_neg hjoined'] at h
    by_cases hjoined : (words.has c && headIs words.has t) = true
    · rw [if_pos hjoined] at h
      rw [Bool.and_eq_true] at hjoined
      exact absurd h.symm (consFirst_ne hjoined.2 c d _)
    · rw [if_neg hjoined, List.cons.injEq, List.cons.injEq] at h
      obtain ⟨⟨rfl, _⟩, htokens⟩ := h
      refine ⟨rfl, htokens, fun hword => ?_⟩
      simp only [hword, Bool.true_and, Bool.not_eq_true] at hjoined hjoined'
      rw [hjoined, hjoined']

/-- A text with the tokens of one that starts with a character has blanks and this character. -/
theorem exists_of_tokens_cons {c : Char} (hc : isBlank c = false) {t t' : Text}
    (h : tokens words t' = tokens words (c :: t)) :
    ∃ gap rest, t' = gap ++ c :: rest ∧ gap.all isBlank = true ∧ Alike words c rest t := by
  induction t' with
  | nil =>
      have hblank := (tokens_eq_nil_iff (c :: t)).mp h.symm
      simp [isEmptyLine, hc] at hblank
  | cons d ds ih =>
      by_cases hd : isBlank d = true
      · rw [tokens_blank_cons hd] at h
        obtain ⟨gap, rest, rfl, hgap, halike⟩ := ih h
        exact ⟨d :: gap, rest, rfl, by simpa [hd] using hgap, halike⟩
      · obtain ⟨rfl, halike⟩ := alike_of_tokens_cons hc (by simpa using hd) h
        exact ⟨[], ds, rfl, rfl, halike⟩

/-- A run of word characters stays in one piece. -/
theorem exists_of_tokens_append {word : Text} (hne : word ≠ [])
    (hword : ∀ c ∈ word, words.has c = true) {t t' : Text}
    (h : tokens words t' = tokens words (word ++ t)) :
    ∃ gap rest, t' = gap ++ (word ++ rest) ∧ gap.all isBlank = true ∧
      tokens words rest = tokens words t ∧ headIs words.has rest = headIs words.has t := by
  induction word generalizing t' with
  | nil => exact absurd rfl hne
  | cons c cs ih =>
      obtain ⟨hc, hcs⟩ := List.forall_mem_cons.mp hword
      obtain ⟨gap, rest, rfl, hgap, htokens, hhead⟩ :=
        exists_of_tokens_cons (words.isBlank_eq_false c hc) h
      cases cs with
      | nil => exact ⟨gap, rest, rfl, hgap, htokens, hhead hc⟩
      | cons d ds =>
          obtain ⟨gap', rest', rfl, hgap', htokens', hhead'⟩ := ih (by simp) hcs htokens
          -- The next character is a word's, so there is no gap before it.
          obtain rfl : gap' = [] := by
            cases gap' with
            | nil => rfl
            | cons b bs =>
                have hb : words.has b = true := (hhead hc).trans (hcs d List.mem_cons_self)
                rw [List.all_cons, words.isBlank_eq_false b hb] at hgap'
                cases hgap'
          exact ⟨gap, rest', rfl, hgap, htokens', hhead'⟩

/-- A text with the tokens of one that has two parts has two parts as well. -/
theorem exists_split_of_tokens {left right t' : Text}
    (h : tokens words t' = tokens words (left ++ right)) :
    ∃ left' right', t' = left' ++ right' ∧ tokens words right' = tokens words right := by
  induction left generalizing t' with
  | nil => exact ⟨[], t', rfl, h⟩
  | cons c cs ih =>
      by_cases hc : isBlank c = true
      · rw [List.cons_append, tokens_blank_cons hc] at h
        exact ih h
      · obtain ⟨gap, rest, rfl, _, htokens, _⟩ := exists_of_tokens_cons (by simpa using hc) h
        obtain ⟨left', right', rfl, hright⟩ := ih htokens
        exact ⟨gap ++ c :: left', right', by simp, hright⟩

theorem eq_nil_of_tokens_eq_nil {t : Text} (htokens : tokens words t = [])
    (hlast : headIs isBlank t.reverse = false) : t = [] := by
  rw [tokens_eq_nil_iff] at htokens
  apply Decidable.byContradiction
  intro hne
  have hall : ∀ c ∈ t, isBlank c = true := List.all_eq_true.mp htokens
  rw [Literal.headIs_reverse_of_forall hne hall] at hlast
  cases hlast

end Text

open Text (tokens Alike)

namespace Literal

variable {words : WordClass}

/-! ### Finders that look at tokens only -/

/-- What a finder asks of a text: nothing of the text before, and nothing of the text after but what
the tokens tell. A span that does not end the text is found before any other text as well. -/
structure Finder.Robust (words : WordClass) (find : Finder) : Prop where
  trims : find.Trims
  starts : ∀ (before : Text) (c : Char) (cs : Text) (n : Nat),
    find before (c :: cs) = n + 1 → words.has c = true
  passes : ∀ (before before' : Text) (c : Char) (cs cs' : Text), isBlank c = false →
    tokens words (c :: cs') = tokens words (c :: cs) → find before (c :: cs) = 0 →
      find before' (c :: cs') = 0
  spans : ∀ (before before' : Text) (c : Char) (cs rest : Text) (n : Nat),
    find before (c :: cs) = n + 1 → (cs.drop n = [] → rest = []) →
      find before' ((c :: cs.take n) ++ rest) = (c :: cs.take n).length

theorem literalEnd?_of_ne {family : Family} (hfamily : family ≠ .javascript)
    (previous : Option Char) (c : Char) :
    family.literalEnd? previous c = if c ∈ family.quotes then some c else none := by
  simp [Family.literalEnd?, hfamily]

theorem quoted_robust {family : Family} (hfamily : family ≠ .javascript)
    (hquotes : family.quotes.all words.has = true) : Finder.Robust words (quoted family) where
  trims := quoted_trims family
  starts := by
    intro before c cs n hfind
    by_cases hquote : c ∈ family.quotes
    · exact List.all_eq_true.mp hquotes c hquote
    · rw [quoted_eq_zero_of_none (by rw [literalEnd?_of_ne hfamily, if_neg hquote])] at hfind
      cases hfind
  passes := by
    intro before before' c cs cs' _ _ hfind
    have hquote : c ∉ family.quotes := by
      intro hquote
      simp [quoted, literalEnd?_of_ne hfamily, hquote] at hfind
    rw [quoted_eq_zero_of_none (by rw [literalEnd?_of_ne hfamily, if_neg hquote])]
  spans := by
    intro before before' c cs rest n hfind hrest
    have hquote : c ∈ family.quotes := by
      apply Decidable.byContradiction
      intro hquote
      rw [quoted_eq_zero_of_none (by rw [literalEnd?_of_ne hfamily, if_neg hquote])] at hfind
      cases hfind
    have hslash : c ≠ '/' := by
      rintro rfl
      revert hquote
      cases family <;> decide
    have hend : ∀ before : Text, family.literalEnd? before.head? c = some c := by
      intro before
      rw [literalEnd?_of_ne hfamily, if_pos hquote]
    rcases closes_or_open c c cs with ⟨inner, after, rfl, hcloses⟩ | ⟨hopen, _⟩
    · rw [quoted_of_closes (hend before) hcloses, flagsOf, if_neg hslash] at hfind
      obtain rfl : n = inner.length := by simpa using hfind.symm
      rw [List.take_left, List.cons_append, quoted_of_closes (hend before') hcloses, flagsOf,
        if_neg hslash]
      rfl
    · rw [quoted_of_open (hend before) hopen] at hfind
      obtain rfl : n = cs.length := by omega
      rw [hrest (List.drop_length), List.take_length, List.append_nil,
        quoted_of_open (hend before') hopen, List.length_cons]

theorem resource_eq (before : Text) {u r l : Char}
    (hlower : [u, r, l].map Char.toLower = ['u', 'r', 'l']) {inner : Text}
    (hinner : ∀ c ∈ inner, c ≠ ')') (rest : Text) :
    resource before (u :: r :: l :: '(' :: (inner ++ ')' :: rest)) = inner.length + 5 := by
  have htake : (inner ++ ')' :: rest).takeWhile (· ≠ ')') = inner := by
    rw [List.takeWhile_append_of_pos (by simpa using hinner)]
    simp
  have hlength : inner.length < (inner ++ ')' :: rest).length := by simp
  rw [resource, if_pos hlower, htake, if_pos hlength]

theorem resource_ne_zero (before : Text) {u r l : Char}
    (hlower : [u, r, l].map Char.toLower = ['u', 'r', 'l']) {rest : Text} (hclose : ')' ∈ rest) :
    resource before (u :: r :: l :: '(' :: rest) ≠ 0 := by
  obtain ⟨inner, others, rfl, hinner⟩ := List.eq_append_cons_of_mem hclose
  have hnone : ∀ c ∈ inner, c ≠ ')' := by
    rintro c hc rfl
    exact hinner hc
  rw [resource_eq before hlower hnone]
  simp

/-- The front of a resource is one token, where its letters are told to be. -/
theorem has_of_resource (hletters : "uUrRlL(".toList.all words.has = true) {u r l : Char}
    (hlower : [u, r, l].map Char.toLower = ['u', 'r', 'l']) :
    ∀ d ∈ [u, r, l, '('], words.has d = true := by
  have hmem : ∀ {d lower : Char} (upper : Char), d.toLower = lower → upper.val = lower.val - 32 →
      lower ∈ "uUrRlL(".toList → upper ∈ "uUrRlL(".toList → words.has d = true := by
    intro d lower upper hd hupper hown hother
    rw [List.all_eq_true] at hletters
    rcases eq_of_toLower_eq hd hupper with rfl | rfl
    · exact hletters _ hown
    · exact hletters _ hother
  simp only [List.map_cons, List.map_nil, List.cons.injEq, and_true] at hlower
  simp only [List.mem_cons, List.not_mem_nil, or_false, forall_eq_or_imp, forall_eq]
  exact ⟨hmem 'U' hlower.1 rfl (by decide) (by decide),
    hmem 'R' hlower.2.1 rfl (by decide) (by decide),
    hmem 'L' hlower.2.2 rfl (by decide) (by decide),
    List.all_eq_true.mp hletters '(' (by decide)⟩

theorem resource_robust (hletters : "uUrRlL(".toList.all words.has = true) :
    Finder.Robust words resource where
  trims := resource_trims
  starts := by
    intro before c cs n hfind
    obtain ⟨u, r, l, inner, others, hsplit, hlower, _⟩ := resource_cases hfind
    obtain ⟨rfl, _⟩ := List.cons.inj hsplit
    exact has_of_resource hletters hlower c (by simp)
  passes := by
    intro before before' c cs cs' hc htokens hfind
    cases hagain : resource before' (c :: cs') with
    | zero => rfl
    | succ n =>
        -- Then the four first characters are a word, and stood in the other text as well.
        obtain ⟨u, r, l, inner, others, hsplit, hlower, _, _⟩ := resource_cases hagain
        have hsame : tokens words (c :: cs) =
            tokens words ([u, r, l, '('] ++ (inner ++ ')' :: others)) := by
          rw [← htokens, hsplit]
          rfl
        obtain ⟨gap, rest, hcs, hgap, hrest, _⟩ :=
          Text.exists_of_tokens_append (by simp) (has_of_resource hletters hlower) hsame
        obtain rfl := Text.eq_nil_of_headIs hgap (by rwa [← hcs, headIs_cons])
        have hclose : ')' ∈ rest := by
          rw [Text.mem_iff_of_tokens_eq hrest (by decide)]
          simp
        rw [hcs] at hfind
        exact absurd hfind (resource_ne_zero before hlower hclose)
  spans := by
    intro before before' c cs rest n hfind _
    obtain ⟨u, r, l, inner, others, hsplit, hlower, hinner, rfl⟩ := resource_cases hfind
    obtain ⟨rfl, rfl⟩ := List.cons.inj hsplit
    have htake : c :: (r :: l :: '(' :: (inner ++ ')' :: others)).take (inner.length + 4) =
        c :: r :: l :: '(' :: (inner ++ [')']) := by
      simp [List.take_length_add_append]
    have hwhole : c :: r :: l :: '(' :: (inner ++ [')']) ++ rest =
        c :: r :: l :: '(' :: (inner ++ ')' :: rest) := by simp
    rw [htake, hwhole, resource_eq before' hlower hinner]
    simp

/-! ### Masking again -/

section

variable (hmarks : ∀ c, isForeign c = false → words.has c = true) {find : Finder}

theorem Finder.Trims.eq_zero (htrims : find.Trims) {c : Char} (hc : isBlank c = true)
    (before rest : Text) : find before (c :: rest) = 0 := by
  cases hfind : find before (c :: rest) with
  | zero => rfl
  | succ n =>
      have hsolid := (htrims before c rest n hfind).1
      rw [hc] at hsolid
      cases hsolid

include hmarks

theorem Finder.Robust.headIs_maskFrom (h : find.Robust words) (before t : Text)
    (literals : List Text) :
    headIs words.has (find.maskFrom before 0 t literals).text = headIs words.has t := by
  cases t with
  | nil => rfl
  | cons c cs =>
      cases hfind : find before (c :: cs) with
      | zero => rw [maskFrom_cons hfind, Masked.prepend_text, List.singleton_append, headIs_cons,
          headIs_cons]
      | succ n =>
          have hopen : words.has markOpen = true := hmarks markOpen (by simp [isForeign])
          rw [maskFrom_span hfind, Masked.prepend_text, mark_append, headIs_cons, headIs_cons,
            hopen, h.starts before c cs n hfind]

omit hmarks in
theorem Finder.Trims.maskFrom_gap (htrims : find.Trims) {gap : Text} (hgap : gap.all isBlank = true)
    (before rest : Text) (literals : List Text) :
    find.maskFrom before 0 (gap ++ rest) literals =
      (find.maskFrom (gap.reverse ++ before) 0 rest literals).prepend gap := by
  apply maskFrom_of_forall
  intro b hb before rest
  exact htrims.eq_zero (List.all_eq_true.mp hgap b hb) before rest

/-- A text that masking turns into a given one and that has the tokens of another text. -/
structure Finder.Source (words : WordClass) (find : Finder) (before : Text) (literals : List Text)
    (masked : Masked) (old new : Text) : Prop where
  masks : find.maskFrom before 0 new literals = masked
  tokens_eq : tokens words new = tokens words old
  last : headIs isBlank new.reverse = false

theorem Finder.Source.headIs_eq {before new old : Text} {literals : List Text} {masked : Masked}
    (hsource : find.Source words before literals masked old new) (h : find.Robust words) :
    headIs words.has new = headIs words.has masked.text := by
  rw [← hsource.masks, h.headIs_maskFrom hmarks]

theorem Finder.Source.char {before before' gap rest cs new : Text} {c : Char}
    {literals found : List Text}
    (hsource : find.Source words (c :: (gap.reverse ++ before')) literals ⟨rest, found⟩ cs new)
    (h : find.Robust words) (hgap : gap.all isBlank = true) (hsolid : isBlank c = false)
    (hfind : find before (c :: cs) = 0)
    (halike : Alike words c rest (find.maskFrom (c :: before) 0 cs literals).text) :
    find.Source words before' literals ⟨gap ++ c :: rest, found⟩ (c :: cs) (gap ++ c :: new) := by
  have hsame : tokens words (c :: new) = tokens words (c :: cs) := by
    refine Alike.tokens_cons ⟨hsource.tokens_eq, fun hword => ?_⟩
    rw [hsource.headIs_eq hmarks h, halike.2 hword, h.headIs_maskFrom hmarks]
  refine ⟨?_, ?_, ?_⟩
  · rw [h.trims.maskFrom_gap hgap, maskFrom_cons (h.passes _ _ c cs new hsolid hsame hfind),
      hsource.masks]
    rfl
  · rw [Text.tokens_blanks_append hgap, hsame]
  · rw [Text.headIs_reverse_append_of_ne_nil (by simp)]
    by_cases hnil : new = []
    · rw [hnil]
      exact hsolid
    · rw [Text.headIs_reverse_cons hnil, hsource.last]

theorem Finder.Source.span {before before' gap rest cs new : Text} {c : Char} {n : Nat}
    {literals found : List Text}
    (hsource : find.Source words ((c :: cs.take n).reverse ++ (gap.reverse ++ before'))
      (literals ++ [c :: cs.take n]) ⟨rest, found⟩ (cs.drop n) new)
    (h : find.Robust words) (hgap : gap.all isBlank = true)
    (hfind : find before (c :: cs) = n + 1) (hlast : headIs isBlank (c :: cs).reverse = false)
    (hhead : headIs words.has rest = headIs words.has (cs.drop n)) :
    find.Source words before' literals ⟨gap ++ (mark literals.length ++ rest), found⟩ (c :: cs)
      (gap ++ (c :: cs.take n ++ new)) := by
  have hnil : cs.drop n = [] → new = [] := by
    intro hdrop
    have htokens := hsource.tokens_eq
    rw [hdrop] at htokens
    exact Text.eq_nil_of_tokens_eq_nil htokens hsource.last
  refine ⟨?_, ?_, ?_⟩
  · rw [h.trims.maskFrom_gap hgap,
      maskFrom_found (by simp) (h.spans before _ c cs new n hfind hnil),
      hsource.masks]
    rfl
  · rw [Text.tokens_blanks_append hgap, Text.tokens_append_congr hsource.tokens_eq,
      List.cons_append, List.take_append_drop]
    rw [hsource.headIs_eq hmarks h, hhead]
  · by_cases hempty : new = []
    · rw [hempty, List.append_nil, Text.headIs_reverse_append_of_ne_nil (by simp)]
      rcases (h.trims before c cs n hfind).2 with hsolid | hdrop
      · exact hsolid
      · have hall := List.take_append_drop n cs
        rw [hdrop, List.append_nil] at hall
        rwa [hall]
    · rw [← List.append_assoc, Text.headIs_reverse_append_of_ne_nil hempty, hsource.last]

/-- A text with the tokens of a masked one is what masking gives for a text with the old tokens:
the gaps of the new masked text, the characters of both, and the old literals. -/
theorem Finder.Robust.exists_source (h : find.Robust words) (before before' : Text) {t : Text}
    (hlast : headIs isBlank t.reverse = false) (literals : List Text) {masked : Text}
    (htokens : tokens words masked = tokens words (find.maskFrom before 0 t literals).text)
    (hend : headIs isBlank masked.reverse = false) :
    ∃ new, find.Source words before' literals
      ⟨masked, (find.maskFrom before 0 t literals).literals⟩ t new := by
  induction before, t using scan_induct find generalizing before' literals masked with
  | done before =>
      obtain rfl := Text.eq_nil_of_tokens_eq_nil htokens hend
      exact ⟨[], rfl, rfl, rfl⟩
  | passed before c cs hfind ih =>
      rw [maskFrom_cons hfind, Masked.prepend_text, List.singleton_append] at htokens
      rw [maskFrom_cons hfind, Masked.prepend_literals]
      have hcs := Text.headIs_reverse_of_suffix (List.suffix_cons c cs) hlast
      cases hc : isBlank c with
      | true =>
          rw [Text.tokens_blank_cons hc] at htokens
          obtain ⟨new, hmasks, hnew, hnewLast⟩ := ih before' hcs literals htokens hend
          exact ⟨new, hmasks, by rw [hnew, Text.tokens_blank_cons hc], hnewLast⟩
      | false =>
          obtain ⟨gap, rest, rfl, hgap, halike⟩ := Text.exists_of_tokens_cons hc htokens
          have hrest := Text.headIs_reverse_of_suffix
            ((List.suffix_cons c rest).trans (List.suffix_append gap _)) hend
          obtain ⟨new, hsource⟩ :=
            ih (c :: (gap.reverse ++ before')) hcs literals halike.1 hrest
          exact ⟨_, hsource.char hmarks h hgap hc hfind halike⟩
  | found before c cs n hfind ih =>
      rw [maskFrom_span hfind, Masked.prepend_text] at htokens
      rw [maskFrom_span hfind, Masked.prepend_literals]
      have hword : ∀ d ∈ mark literals.length, words.has d = true :=
        fun d hd => hmarks d (isForeign_of_mem_mark hd)
      obtain ⟨gap, rest, rfl, hgap, hrestTokens, hrestHead⟩ :=
        Text.exists_of_tokens_append (mark_compact literals.length).ne_nil hword htokens
      have hrest := Text.headIs_reverse_of_suffix
        ((List.suffix_append _ rest).trans (List.suffix_append gap _)) hend
      have hback := Text.headIs_reverse_of_suffix
        ((List.drop_suffix n cs).trans (List.suffix_cons c cs)) hlast
      obtain ⟨new, hsource⟩ :=
        ih ((c :: cs.take n).reverse ++ (gap.reverse ++ before')) hback _ hrestTokens hrest
      rw [h.headIs_maskFrom hmarks] at hrestHead
      exact ⟨_, hsource.span hmarks h hgap hfind hlast hrestHead⟩

theorem exists_runAll_eq {finds : List Finder} (hrobust : ∀ find ∈ finds, find.Robust words)
    {masked : Masked} (hneat : masked.Neat) {text : Text}
    (htokens : tokens words text =
      tokens words (finds.foldl (fun masked find => find.run masked) masked).text)
    (hend : headIs isBlank text.reverse = false) :
    ∃ new, finds.foldl (fun masked find => find.run masked) ⟨new, masked.literals⟩ =
        ⟨text, (finds.foldl (fun masked find => find.run masked) masked).literals⟩ ∧
      tokens words new = tokens words masked.text ∧ headIs isBlank new.reverse = false := by
  induction finds generalizing masked with
  | nil => exact ⟨text, rfl, htokens, hend⟩
  | cons find others ih =>
      have hfind := hrobust find List.mem_cons_self
      have hothers := fun other hother => hrobust other (List.mem_cons_of_mem find hother)
      have hrun : (find.run masked).Neat :=
        hfind.trims.neat_maskFrom [] hneat.last hneat.literals
      obtain ⟨middle, hmiddle, hmiddleTokens, hmiddleEnd⟩ := ih hothers hrun htokens
      obtain ⟨new, hsource⟩ := hfind.exists_source hmarks [] [] hneat.last masked.literals
        hmiddleTokens hmiddleEnd
      refine ⟨new, ?_, hsource.tokens_eq, hsource.last⟩
      have hnew : find.run ⟨new, masked.literals⟩ = ⟨middle, (find.run masked).literals⟩ :=
        hsource.masks
      rw [List.foldl_cons, hnew, List.foldl_cons, hmiddle]

end

end Literal

namespace Line

open Literal (mask restore markOpen numberLimit isForeign)

/-- What tidying code needs to be looked at through some words: the rules keep them, and the finders
see nothing else. -/
structure Scans (words : WordClass) (family : Family) (language : Option Text) : Prop where
  marks : ∀ c, isForeign c = false → words.has c = true
  finders : ∀ find ∈ Literal.finders family language, find.Robust words
  rules : ∀ rule ∈ Spacing.rules family language, rule.isSafe words [] = true

variable {words : WordClass} {family : Family} {language : Option Text}

/-- Masking tidied code gives the old literals, and the text that the rules had given. -/
theorem Scans.mask_tidied (h : Scans words family language) {code out : Text}
    (hplain : markOpen ∉ code) (hlength : code.length ≤ numberLimit)
    (hne : code.trim ≠ []) (htidy : tidyCode family language code = .ok out) :
    mask family language out =
        ⟨Spacing.applyAll (Spacing.rules family language) (mask family language code.trim).text,
          (mask family language code.trim).literals⟩ ∧
      tokens words out = tokens words code.trim := by
  rw [tidyCode, if_neg (by simpa using hne)] at htidy
  dsimp only at htidy
  have hsub := Text.trim_sublist code
  have hcount := (Literal.stands_mask family language
    (mt (fun hmem => hsub.subset hmem) hplain)).literals_length_le
  have htokens := Spacing.tokens_applyAll (by simp) h.rules
    (show Text.Lacks [] (mask family language code.trim).text by simp [Text.Lacks])
  obtain ⟨new, hmask, hnew, _⟩ := Literal.exists_runAll_eq h.marks h.finders
    (⟨by simp, (Text.trimmed_trim code).last⟩ : Literal.Masked.Neat ⟨code.trim, []⟩) htokens
    (Spacing.trimmed_rules family language _).last
  -- The text that is masked so is restored to itself, and restoring gave the tidied code.
  have hnewPlain : markOpen ∉ new := by
    rw [Text.mem_iff_of_tokens_eq hnew (by decide)]
    exact mt (fun hmem => hsub.subset hmem) hplain
  have hmask' : mask family language new =
      ⟨Spacing.applyAll (Spacing.rules family language) (mask family language code.trim).text,
        (mask family language code.trim).literals⟩ := hmask
  have hlimit : (mask family language new).literals.length ≤ numberLimit := by
    rw [hmask']
    exact Nat.le_trans hcount (Nat.le_trans hsub.length_le hlength)
  have hrestore := (Literal.stands_mask family language hnewPlain).1.restore_eq hlimit
  rw [hmask', htidy] at hrestore
  obtain rfl : out = new := Except.ok.inj hrestore
  exact ⟨hmask', hnew⟩

/-- Tidied code is tidied to itself if the rules have nothing to do any more. -/
theorem Scans.tidyCode_tidied (h : Scans words family language) {code out : Text}
    (hplain : markOpen ∉ code) (hlength : code.length ≤ numberLimit)
    (hsettled : Spacing.applyAll (Spacing.rules family language)
        (Spacing.applyAll (Spacing.rules family language) (mask family language code.trim).text) =
      Spacing.applyAll (Spacing.rules family language) (mask family language code.trim).text)
    (htidy : tidyCode family language code = .ok out) : tidyCode family language out = .ok out := by
  have htrim := (trimmed_tidyCode htidy).trim_eq
  by_cases hne : code.trim = []
  · rw [tidyCode, if_pos (by simpa using hne)] at htidy
    cases htidy
    rfl
  · obtain ⟨hmask, htokens⟩ := h.mask_tidied hplain hlength hne htidy
    have houtNe : out ≠ [] := by
      rintro rfl
      rw [Text.tokens_nil, eq_comm, Text.tokens_trim, Text.tokens_eq_nil_iff] at htokens
      exact hne ((Text.trim_eq_nil_iff code).mpr htokens)
    rw [tidyCode, htrim, if_neg (by simpa using houtNe), hmask]
    dsimp only
    rw [hsettled]
    rw [tidyCode, if_neg (by simpa using hne)] at htidy
    exact htidy

end Line

end SourceLayout
