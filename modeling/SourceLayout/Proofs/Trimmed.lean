import SourceLayout.Proofs.Layout.Blank
import SourceLayout.Proofs.Literal.Span
import SourceLayout.Proofs.Spacing.Operator

/-!
# Tidied lines are trimmed

Every literal starts and ends with a character that is no blank, and the rules of a family leave no
blank at either end of a text. So a tidied line has none there, whatever the line was.
-/

namespace SourceLayout

namespace Text

/-- No blank stands at either end. -/
structure Trimmed (t : Text) : Prop where
  head : headIs isBlank t = false
  last : headIs isBlank t.reverse = false

theorem Trimmed.nil : Trimmed [] :=
  ⟨rfl, rfl⟩

theorem trimmed_trim (t : Text) : Trimmed t.trim := by
  refine ⟨headIs_trim t, ?_⟩
  rw [trim, trimRight, List.reverse_reverse]
  exact headIs_trimLeft _

theorem Trimmed.trim_eq {t : Text} (h : Trimmed t) : t.trim = t :=
  trim_eq_self h.head h.last

theorem headIs_reverse_append_of_ne_nil {p : Char → Bool} {right : Text} (hne : right ≠ [])
    (left : Text) : headIs p (left ++ right).reverse = headIs p right.reverse := by
  rw [List.reverse_append, headIs_append (by simpa using hne)]

theorem headIs_reverse_of_getLast? {p : Char → Bool} {t : Text} {c : Char}
    (hlast : t.getLast? = some c) : headIs p t.reverse = p c := by
  rw [← List.head?_reverse] at hlast
  cases hreverse : t.reverse with
  | nil => simp [hreverse] at hlast
  | cons d ds =>
      rw [hreverse, List.head?_cons, Option.some.injEq] at hlast
      rw [headIs_cons, hlast]

theorem headIs_reverse_of_forall_false {p : Char → Bool} {t : Text} (hall : ∀ c ∈ t, p c = false) :
    headIs p t.reverse = false := by
  cases hreverse : t.reverse with
  | nil => rfl
  | cons c cs => exact hall c (List.mem_reverse.mp (hreverse ▸ List.mem_cons_self))

theorem headIs_reverse_of_suffix {p : Char → Bool} {t u : Text} (hsuffix : u <:+ t)
    (hlast : headIs p t.reverse = false) : headIs p u.reverse = false := by
  obtain ⟨left, rfl⟩ := hsuffix
  by_cases hne : u = []
  · simp [hne]
  · rwa [headIs_reverse_append_of_ne_nil hne] at hlast

theorem eq_nil_of_headIs {blanks rest : Text} (hblanks : blanks.all isBlank = true)
    (hhead : headIs isBlank (blanks ++ rest) = false) : blanks = [] := by
  cases blanks with
  | nil => rfl
  | cons b bs =>
      have hb : isBlank b = false := hhead
      simp [hb] at hblanks

theorem Trimmed.append {left right : Text} (hleft : Trimmed left) (hright : Trimmed right)
    (hleftNe : left ≠ []) (hrightNe : right ≠ []) (middle : Text) :
    Trimmed (left ++ middle ++ right) := by
  refine ⟨?_, ?_⟩
  · rw [List.append_assoc, headIs_append hleftNe, hleft.head]
  · rw [headIs_reverse_append_of_ne_nil hrightNe, hright.last]

/-- The characters of a text that are no blanks. -/
def solid (t : Text) : Text :=
  t.filter fun c => !isBlank c

theorem solid_cons {c : Char} (hc : isBlank c = false) (t : Text) : solid (c :: t) = c :: solid t :=
  List.filter_cons_of_pos (by simp [hc])

theorem solid_blank_cons {c : Char} (hc : isBlank c = true) (t : Text) : solid (c :: t) = solid t :=
  List.filter_cons_of_neg (by simp [hc])

theorem solid_append (t t' : Text) : solid (t ++ t') = solid t ++ solid t' :=
  List.filter_append ..

theorem solid_blanks {t : Text} (ht : t.all isBlank = true) : solid t = [] := by
  rw [solid, List.filter_eq_nil_iff]
  simpa using ht

theorem solid_of_forall {t : Text} (ht : ∀ c ∈ t, isBlank c = false) : solid t = t :=
  List.filter_eq_self.mpr fun c hc => by simp [ht c hc]

theorem flatten_tokens (words : WordClass) (t : Text) : (tokens words t).flatten = solid t := by
  induction t with
  | nil => rfl
  | cons c cs ih =>
      by_cases hblank : isBlank c = true
      · rw [tokens_blank_cons hblank, ih, solid_blank_cons hblank]
      · rw [tokens, if_neg hblank]
        rw [solid_cons (by simpa using hblank), ← ih]
        split
        · cases tokens words cs <;> rfl
        · rfl

theorem mem_iff_of_tokens_eq {words : WordClass} {t t' : Text}
    (h : tokens words t = tokens words t')
    {c : Char} (hc : isBlank c = false) : c ∈ t ↔ c ∈ t' := by
  have hsolid : ∀ u : Text, c ∈ u ↔ c ∈ (tokens words u).flatten := by
    intro u
    simp [flatten_tokens, solid, hc]
  rw [hsolid, hsolid t', h]

theorem headIs_of_sublist {r t : Text} (hsub : r.Sublist t)
    (hcount : (solid r).length = (solid t).length) (hhead : headIs isBlank t = false) :
    headIs isBlank r = false := by
  cases hsub with
  | slnil => rfl
  | @cons _ u c hrest =>
      -- The first character would be missing.
      have hle : (solid r).length ≤ (solid u).length := (hrest.filter _).length_le
      have hc : isBlank c = false := hhead
      rw [solid_cons hc, List.length_cons] at hcount
      omega
  | cons_cons c _ => exact hhead

theorem solid_reverse (t : Text) : solid t.reverse = (solid t).reverse :=
  List.filter_reverse

theorem startsWith_solid {t : Text} (hhead : headIs isBlank t = false) (c : Char) :
    (solid t).startsWith [c] = t.startsWith [c] := by
  cases t with
  | nil => rfl
  | cons d ds =>
      have hd : isBlank d = false := hhead
      simp [solid, startsWith, hd, List.isPrefixOf]

theorem endsWith_solid {t : Text} (hlast : headIs isBlank t.reverse = false) (c : Char) :
    (solid t).endsWith [c] = t.endsWith [c] := by
  have hstarts := startsWith_solid hlast c
  rw [solid_reverse] at hstarts
  exact hstarts

/-- Whatever is deleted from a trimmed text, it stays trimmed if only blanks are deleted. -/
theorem Trimmed.of_sublist {r t : Text} (h : Trimmed t) (hsub : r.Sublist t)
    (hsolid : solid r = solid t) : Trimmed r := by
  refine ⟨headIs_of_sublist hsub (by rw [hsolid]) h.head, ?_⟩
  refine headIs_of_sublist hsub.reverse ?_ h.last
  rw [solid_reverse, solid_reverse, hsolid]

end Text

open Text (Trimmed solid)

/-! ### Rules -/

namespace Spacing

theorem headIs_reverse_intercalate {chunks : List Text}
    (hchunks : ∀ chunk ∈ chunks, chunk ≠ [] ∧ ∀ c ∈ chunk, isBlank c = false) :
    headIs isBlank ([' '].intercalate chunks).reverse = false ∧
      (chunks ≠ [] → [' '].intercalate chunks ≠ []) := by
  induction chunks with
  | nil => exact ⟨rfl, fun hne => absurd rfl hne⟩
  | cons first rest ih =>
      obtain ⟨hfirst, hsolid⟩ := hchunks first List.mem_cons_self
      obtain ⟨hlast, hne⟩ := ih fun chunk hchunk =>
        hchunks chunk (List.mem_cons_of_mem first hchunk)
      cases rest with
      | nil =>
          have hreverse := Text.headIs_reverse_of_forall_false hsolid
          simpa [List.intercalate] using ⟨hreverse, hfirst⟩
      | cons second others =>
          rw [intercalate_space_cons, Text.headIs_reverse_append_of_ne_nil (hne (by simp))]
          exact ⟨hlast, by simp⟩

theorem trimmed_collapse (t : Text) : Trimmed t.collapse :=
  ⟨headIs_intercalate fun _ hchunk => (of_mem_chunks hchunk).2,
    (headIs_reverse_intercalate fun _ hchunk => (of_mem_chunks hchunk).2).1⟩

/-- Whether a part writes nothing that it has not read. -/
def Part.deletes : Part → Bool
  | .gap _ spaced => !spaced
  | _ => true

theorem Pattern.Matches.sublist {pattern : Pattern} {before rest read written : Text}
    (hmatch : pattern.Matches rest before read written)
    (hdeletes : pattern.all Part.deletes = true) : written.Sublist read := by
  induction hmatch with
  | nil => exact List.nil_sublist []
  | cons hfirst hothers ih =>
      rw [List.all_cons, Bool.and_eq_true] at hdeletes
      refine List.Sublist.append ?_ (ih hdeletes.2)
      cases hfirst with
      | look | token | run => exact List.Sublist.refl _
      | @gap _ spaced =>
          obtain rfl : spaced = false := by simpa [Part.deletes] using hdeletes.1
          exact List.nil_sublist _
      | space => exact List.nil_sublist _

theorem Pattern.respaceFrom_sublist {pattern : Pattern}
    (hdeletes : pattern.all Part.deletes = true) (before t : Text) :
    (pattern.respaceFrom before 0 t).Sublist t := by
  induction before, t using Pattern.respaceFrom_induct pattern with
  | done before => exact List.nil_sublist []
  | found before read written rest hne hmatch ih =>
      rw [Pattern.respaceFrom_match hne hmatch]
      exact ((Pattern.matches_of_match? hmatch).sublist hdeletes).append ih
  | passed before c cs hnone ih =>
      rw [Pattern.respaceFrom_passed hnone]
      exact ih.cons_cons c

theorem sliceColonsFrom_sublist (stack : List Char) (written rest : Text) :
    (sliceColonsFrom stack written rest).Sublist (written.reverse ++ rest) := by
  fun_induction sliceColonsFrom stack written rest with
  | case1 stack written => simp
  | case2 stack written c cs stack' inSlice hslice ih =>
      obtain ⟨rfl, _⟩ := hslice
      refine ih.trans ?_
      have hdrop := (List.dropWhile_sublist (fun c => c == ' ') (l := written)).reverse
      rw [List.reverse_cons, List.append_assoc, List.singleton_append]
      exact hdrop.append_right _
  | case3 stack written c cs stack' inSlice hslice hspace ih =>
      exact ih.trans ((List.sublist_cons_self c cs).append_left _)
  | case4 stack written c cs stack' inSlice hslice hspace ih =>
      rwa [List.reverse_cons, List.append_assoc, List.singleton_append] at ih

theorem keywordArgumentsFrom_sublist (frames : List Frame) (previous : Option Char) (t : Text) :
    (keywordArgumentsFrom frames previous t).Sublist t := by
  fun_induction keywordArgumentsFrom frames previous t with
  | case1 => exact List.nil_sublist []
  | case2 frames previous cs hbinds ih => exact ((ih.cons ' ').cons_cons '=').cons ' '
  | case3 frames previous cs hbinds ih => exact ih.cons_cons ' '
  | case4 frames previous c cs _ ih => exact ih.cons_cons c

/-- Whether a rule does nothing but delete blanks. -/
def Rule.deletes (rule : Rule) : Bool :=
  match rule.action with
  | .respace pattern => pattern.all Part.deletes
  | .sliceColons | .keywordArguments => true
  | .collapse | .keyColons | .declarationColons => false

theorem Rule.apply_sublist {rule : Rule} (hdeletes : rule.deletes = true) (t : Text) :
    (rule.apply t).Sublist t := by
  rw [Rule.deletes] at hdeletes
  rw [Rule.apply]
  cases haction : rule.action with
  | respace pattern =>
      rw [haction] at hdeletes
      exact Pattern.respaceFrom_sublist hdeletes [] t
  | sliceColons => exact sliceColonsFrom_sublist [] [] t
  | keywordArguments => exact keywordArgumentsFrom_sublist [] none t
  | collapse | keyColons | declarationColons => simp [haction] at hdeletes

theorem trimmed_applyAll {rules : List Rule}
    (hrules : ∀ rule ∈ rules, rule.deletes = true ∧ rule.isSafe .marked [] = true) {t : Text}
    (h : Trimmed t) : Trimmed (applyAll rules t) := by
  refine applyAll_induct ?_ h
  intro rule hrule s hs
  obtain ⟨hdeletes, hsafe⟩ := hrules rule hrule
  have htokens := @Rule.tokens_apply .marked rule [] hsafe s (by simp [Text.Lacks])
  refine hs.of_sublist (Rule.apply_sublist hdeletes s) ?_
  rw [← Text.flatten_tokens .marked, htokens, Text.flatten_tokens]

/-- After the last time that blanks are collapsed, blanks are only deleted. -/
theorem exists_rules_eq (family : Family) (language : Option Text) :
    ∃ first last, rules family language = first ++ collapseRule :: last ∧
      ∀ rule ∈ last, rule.deletes = true := by
  have hsplit : ∀ (all : List Rule) (count : Nat) (last : List Rule),
      all.drop count = collapseRule :: last → all = all.take count ++ collapseRule :: last := by
    intro all count last hdrop
    rw [← hdrop, List.take_append_drop]
  cases family with
  | javascript => exact ⟨_, [], hsplit javascriptRules 21 [] rfl, by simp⟩
  | html => exact ⟨_, [], hsplit htmlRules 4 [] rfl, by simp⟩
  | css => exact ⟨_, [], hsplit cssRules 5 [] rfl, by simp⟩
  | python => exact ⟨_, pythonRules.drop 18, hsplit pythonRules 17 _ rfl, by decide +kernel⟩
  | cFamily =>
      simp only [rules, cRules]
      split
      · exact ⟨cFirstRules ++ [memberArrowRule], cLastRules.tail, by simp [cLastRules],
          by decide +kernel⟩
      · exact ⟨cFirstRules, cLastRules.tail, rfl, by decide +kernel⟩

theorem trimmed_rules (family : Family) (language : Option Text) (t : Text) :
    Trimmed (applyAll (rules family language) t) := by
  obtain ⟨first, last, hrules, hdeletes⟩ := exists_rules_eq family language
  have hsafe := rules_isSafe family language
  rw [hrules] at hsafe ⊢
  rw [applyAll_append, applyAll, List.foldl_cons]
  refine trimmed_applyAll (fun rule hrule => ?_) (trimmed_collapse _)
  exact ⟨hdeletes rule hrule, hsafe rule (by simp [hrule])⟩

end Spacing

/-! ### Literals -/

namespace Literal

/-- A finder whose spans start with no blank, and end with none unless they run to the end. -/
def Finder.Trims (find : Finder) : Prop :=
  ∀ (before : Text) (c : Char) (cs : Text) (n : Nat), find before (c :: cs) = n + 1 →
    isBlank c = false ∧ (headIs isBlank (c :: cs.take n).reverse = false ∨ cs.drop n = [])

theorem isBlank_of_literalEnd? {family : Family} {previous : Option Char} {c stop : Char}
    (hend : family.literalEnd? previous c = some stop) : isBlank c = false ∧ stop = c := by
  have hquotes : ∀ c ∈ family.quotes, isBlank c = false :=
    List.all_iff_forall_prop.mp (by cases family <;> decide)
  obtain ⟨rfl, ⟨rfl, _⟩ | hquote⟩ := eq_slash_or_quote hend
  · exact ⟨by decide, rfl⟩
  · exact ⟨hquotes stop hquote, rfl⟩

theorem isBlank_of_isLetter {c : Char} (hletter : isLetter c = true) : isBlank c = false := by
  cases hblank : isBlank c with
  | false => rfl
  | true =>
      have hnone : ∀ c, isBlank c = true → isLetter c = false := by
        intro c hblank
        rw [← Char.ofNat_toNat c]
        simp only [isBlank, decide_eq_true_eq] at hblank
        generalize c.toNat = point at hblank
        clear hletter
        revert point
        decide +kernel
      rw [hnone c hblank] at hletter
      cases hletter

theorem isBlank_of_isDecimal {c : Char} (hdecimal : isDecimal c = true) : isBlank c = false := by
  cases hblank : isBlank c with
  | false => rfl
  | true =>
      rw [isDecimal_of_isBlank c hblank] at hdecimal
      cases hdecimal

theorem quoted_trims (family : Family) : Finder.Trims (quoted family) := by
  intro before c cs n hfind
  cases hend : family.literalEnd? before.head? c with
  | none =>
      rw [quoted_eq_zero_of_none hend] at hfind
      cases hfind
  | some stop =>
      obtain ⟨hblank, rfl⟩ := isBlank_of_literalEnd? hend
      refine ⟨hblank, ?_⟩
      rcases closes_or_open stop stop cs with ⟨inner, rest, rfl, hcloses⟩ | ⟨hopen, _⟩
      · obtain ⟨flags, others, rfl, hletters, _, hflags⟩ := exists_flags stop rest
        have hwhole := hflags others.length
        rw [List.take_length] at hwhole
        rw [quoted_of_closes hend hcloses, hwhole] at hfind
        have htake : (inner ++ (flags ++ others)).take n = inner ++ flags := by
          rw [← List.append_assoc]
          exact List.take_left' (by rw [List.length_append]; omega)
        rw [htake]
        left
        by_cases hnil : flags = []
        · have hlast : (stop :: inner).getLast? = some stop := by
            simp [List.getLast?_cons, hcloses.getLast?]
          rw [hnil, List.append_nil, Text.headIs_reverse_of_getLast? hlast, hblank]
        · rw [← List.cons_append, Text.headIs_reverse_append_of_ne_nil hnil]
          apply Text.headIs_reverse_of_forall_false
          intro flag hflag
          exact isBlank_of_isLetter (List.all_eq_true.mp hletters flag hflag)
      · rw [quoted_of_open hend hopen] at hfind
        exact .inr (List.drop_of_length_le (by omega))

theorem resource_trims : Finder.Trims resource := by
  intro before c cs n hfind
  obtain ⟨u, r, l, inner, others, hsplit, hlower, _, rfl⟩ := resource_cases hfind
  obtain ⟨rfl, rfl⟩ := List.cons.inj hsplit
  refine ⟨?_, .inl ?_⟩
  · rcases @eq_of_toLower_eq c 'u' 'U' (List.cons.inj hlower).1 rfl with rfl | rfl <;> decide
  · have htake : c :: (r :: l :: '(' :: (inner ++ ')' :: others)).take (inner.length + 4) =
        (c :: r :: l :: '(' :: inner) ++ [')'] := by
      simp [List.take_length_add_append]
    rw [htake, Text.headIs_reverse_append_of_ne_nil (by simp)]
    decide

theorem typeList_trims : Finder.Trims typeList := by
  intro before c cs n hfind
  obtain ⟨inner, others, hsplit, rfl, _⟩ := typeList_cases hfind
  obtain ⟨rfl, rfl⟩ := List.cons.inj hsplit
  refine ⟨by decide, .inl ?_⟩
  have htake : '<' :: (inner ++ '>' :: others).take (inner.length + 1) = '<' :: inner ++ ['>'] := by
    simp [List.take_length_add_append]
  rw [htake, Text.headIs_reverse_append_of_ne_nil (by simp)]
  decide

theorem shift_trims : Finder.Trims shift := by
  have hoperators : ∀ operator ∈ shiftOperators, operator.all (!isBlank ·) = true := by decide
  intro before c cs n hfind
  have hsolid : ∀ d ∈ c :: cs.take n, isBlank d = false := by
    simpa using hoperators _ (shift_cases hfind)
  exact ⟨hsolid c List.mem_cons_self, .inl (Text.headIs_reverse_of_forall_false hsolid)⟩

/-- A number with an exponent ends with a digit. -/
theorem headIs_reverse_of_exponent {before rest : Text} {n : Nat}
    (hfind : exponent before rest = n + 1) : headIs isDecimal (rest.take (n + 1)).reverse = true := by
  obtain ⟨whole, fraction, e, sign, digits, hspan, _, _, _, _, hne, hdigits⟩ := exponent_cases hfind
  have hsplit : whole ++ (fraction ++ e :: (sign ++ digits)) =
      whole ++ (fraction ++ e :: sign) ++ digits := by simp
  rw [hspan, hsplit, Text.headIs_reverse_append_of_ne_nil hne]
  exact headIs_reverse_of_forall hne hdigits

theorem exponent_trims : Finder.Trims exponent := by
  intro before c cs n hfind
  have hlast := headIs_reverse_of_exponent hfind
  refine ⟨?_, .inl ?_⟩
  · cases hdecimal : isDecimal c with
    | true => exact isBlank_of_isDecimal hdecimal
    | false =>
        rw [exponent_eq_zero_of_not_decimal hdecimal] at hfind
        cases hfind
  · rw [List.take_succ_cons] at hlast
    cases hreverse : (c :: cs.take n).reverse with
    | nil => rfl
    | cons d ds =>
        rw [hreverse] at hlast
        exact isBlank_of_isDecimal hlast

theorem finders_trim {family : Family} {language : Option Text} {find : Finder}
    (hfind : find ∈ finders family language) : find.Trims := by
  simp only [finders, List.mem_cons, List.mem_append] at hfind
  rcases hfind with rfl | ((hfind | hfind) | hfind) | hfind
  · exact quoted_trims family
  · split at hfind <;> simp_all [resource_trims]
  · split at hfind <;> simp_all [exponent_trims]
  · split at hfind <;> simp_all [typeList_trims]
  · split at hfind <;> simp_all [shift_trims]

/-- A literal with something in it and no blank at either end. -/
structure Compact (literal : Text) : Prop where
  trimmed : Trimmed literal
  ne_nil : literal ≠ []

theorem mark_compact (number : Nat) : Compact (mark number) := by
  refine ⟨⟨?_, ?_⟩, by simp [mark]⟩
  · rw [← List.append_nil (mark number), mark_append, headIs_cons]
    decide
  · rw [mark, Text.headIs_reverse_append_of_ne_nil (by simp)]
    decide

/-- What a run of a finder leaves: compact literals, and a last character that is no blank. -/
structure Masked.Neat (masked : Masked) : Prop where
  literals : ∀ literal ∈ masked.literals, Compact literal
  last : headIs isBlank masked.text.reverse = false

theorem Masked.Neat.prepend {front : Text} {masked : Masked} (h : masked.Neat)
    (hfront : masked.text = [] → headIs isBlank front.reverse = false) :
    (masked.prepend front).Neat := by
  refine ⟨h.literals, ?_⟩
  rw [Masked.prepend_text]
  by_cases hnil : masked.text = []
  · rw [hnil, List.append_nil, hfront hnil]
  · rw [Text.headIs_reverse_append_of_ne_nil hnil, h.last]

theorem Finder.maskFrom_text_ne_nil (find : Finder) (before : Text) {t : Text} (hne : t ≠ [])
    (literals : List Text) : (find.maskFrom before 0 t literals).text ≠ [] := by
  cases t with
  | nil => exact absurd rfl hne
  | cons c cs =>
      cases hfind : find before (c :: cs) with
      | zero => simp [maskFrom_cons hfind]
      | succ n => simp [maskFrom_span hfind, mark]

theorem Finder.Trims.neat_maskFrom {find : Finder} (htrims : find.Trims) (before : Text) {t : Text}
    (hlast : headIs isBlank t.reverse = false) {literals : List Text}
    (hliterals : ∀ literal ∈ literals, Compact literal) :
    (find.maskFrom before 0 t literals).Neat := by
  induction before, t using scan_induct find generalizing literals with
  | done before => exact ⟨hliterals, rfl⟩
  | passed before c cs hfind ih =>
      have hcs := Text.headIs_reverse_of_suffix (List.suffix_cons c cs) hlast
      rw [maskFrom_cons hfind]
      refine (ih hcs hliterals).prepend fun hnil => ?_
      have hend : cs = [] := by
        by_contra hne
        exact find.maskFrom_text_ne_nil (c :: before) hne literals hnil
      rwa [hend] at hlast
  | found before c cs n hfind ih =>
      have hrest := Text.headIs_reverse_of_suffix
        ((List.drop_suffix n cs).trans (List.suffix_cons c cs)) hlast
      rw [maskFrom_span hfind]
      obtain ⟨hhead, hend⟩ := htrims before c cs n hfind
      have hspan : Compact (c :: cs.take n) := by
        refine ⟨⟨hhead, ?_⟩, by simp⟩
        rcases hend with hend | hall
        · exact hend
        · have htake := List.take_append_drop n cs
          rw [hall, List.append_nil] at htake
          rwa [htake]
      have hmore : ∀ literal ∈ literals ++ [c :: cs.take n], Compact literal :=
        List.forall_mem_append.mpr ⟨hliterals, List.forall_mem_singleton.mpr hspan⟩
      exact (ih hrest hmore).prepend fun _ => (mark_compact literals.length).trimmed.last

theorem neat_mask (family : Family) (language : Option Text) {code : Text} (h : Trimmed code) :
    (mask family language code).Neat :=
  mask_induct (fun _ hfind _ hneat =>
    (finders_trim hfind).neat_maskFrom [] hneat.last hneat.literals) ⟨by simp, h.last⟩

/-! ### Restoring -/

theorem trimmed_restoreOnce {literals : List Text}
    (hliterals : ∀ literal ∈ literals, Compact literal) {t out : Text}
    (hrestore : restoreOnce literals 0 t = .ok out) :
    (t ≠ [] → out ≠ []) ∧ (headIs isBlank t = false → headIs isBlank out = false) ∧
      (headIs isBlank t.reverse = false → headIs isBlank out.reverse = false) := by
  induction t using read_induct generalizing out with
  | done =>
      cases hrestore
      exact ⟨id, id, id⟩
  | char c cs hmark ih =>
      obtain ⟨rest, hrest, rfl⟩ := exists_of_restoreOnce_cons hmark hrestore
      obtain ⟨hne, _, hlast⟩ := ih hrest
      refine ⟨by simp, id, fun hsolid => ?_⟩
      by_cases hcs : cs = []
      · subst hcs
        cases hrest
        exact hsolid
      · rw [← List.singleton_append, Text.headIs_reverse_append_of_ne_nil (hne hcs)]
        rw [← List.singleton_append, Text.headIs_reverse_append_of_ne_nil hcs] at hsolid
        exact hlast hsolid
  | mark c cs digits hmark ih =>
      obtain ⟨literal, rest, hget, hrest, rfl⟩ := exists_of_restoreOnce_markDigits hmark hrestore
      have hcompact := hliterals literal (mem_of_literalAt hget)
      obtain ⟨_, _, hlast⟩ := ih hrest
      refine ⟨by simp [hcompact.ne_nil], fun _ => ?_, fun hsolid => ?_⟩
      · rw [Text.headIs_append hcompact.ne_nil, hcompact.trimmed.head]
      · have hrestLast := hlast (Text.headIs_reverse_of_suffix
          ((List.drop_suffix _ cs).trans (List.suffix_cons c cs)) hsolid)
        by_cases hnil : rest = []
        · rw [hnil, List.append_nil, hcompact.trimmed.last]
        · rw [Text.headIs_reverse_append_of_ne_nil hnil, hrestLast]

theorem trimmed_restoreTimes {literals : List Text}
    (hliterals : ∀ literal ∈ literals, Compact literal) {passes : Nat} {t out : Text}
    (h : Trimmed t) (hrestore : restoreTimes literals passes t = .ok out) : Trimmed out := by
  refine restoreTimes_induct hrestore h fun t next honce h => ?_
  obtain ⟨_, hhead, hlast⟩ := trimmed_restoreOnce hliterals honce
  exact ⟨hhead h.head, hlast h.last⟩

end Literal

/-! ### Comments -/

namespace Comment

theorem squeezeRuns_last (t : Text) :
    (t ≠ [] → squeezeRuns t ≠ []) ∧
      (headIs isBlank t.reverse = false → headIs isBlank (squeezeRuns t).reverse = false) := by
  fun_induction squeezeRuns t with
  | case1 => exact ⟨id, id⟩
  | case2 c => exact ⟨id, id⟩
  | case3 c d hblanks e cs he ih =>
      refine ⟨fun _ => ih.1 (by simp), fun hlast => ih.2 ?_⟩
      exact Text.headIs_reverse_of_suffix (List.suffix_cons c _) hlast
  | case4 c d hblanks e cs he ih =>
      refine ⟨by simp, fun hlast => ?_⟩
      rw [← List.singleton_append, Text.headIs_reverse_append_of_ne_nil (ih.1 (by simp))]
      exact ih.2 (Text.headIs_reverse_of_suffix ((List.suffix_cons d _).trans (List.suffix_cons c _))
        hlast)
  | case5 c d hblanks =>
      refine ⟨by simp, fun hlast => ?_⟩
      have hd : isBlank d = false := hlast
      simp [hd] at hblanks
  | case6 c d cs hblanks ih =>
      refine ⟨by simp, fun hlast => ?_⟩
      rw [← List.singleton_append, Text.headIs_reverse_append_of_ne_nil (ih.1 (by simp))]
      exact ih.2 (Text.headIs_reverse_of_suffix (List.suffix_cons c _) hlast)

theorem squeezeRuns_head {t : Text} (hhead : headIs isBlank t = false) :
    headIs isBlank (squeezeRuns t) = false := by
  match t with
  | [] => rfl
  | [c] => exact hhead
  | c :: d :: cs =>
      have hc : isBlank c = false := hhead
      simp [squeezeRuns, hc]

/-- A marker with one space in place of the blanks after it. -/
theorem trimmed_led {marker cs : Text} {c : Char} (h : Trimmed (marker ++ c :: cs))
    (hmarker : marker ≠ []) (hblank : isBlank c = true) :
    Trimmed (marker ++ ' ' :: Text.trimLeft cs) := by
  have hsuffix : Text.trimLeft cs <:+ marker ++ c :: cs :=
    (List.dropWhile_suffix isBlank).trans
      ((List.suffix_cons c cs).trans (List.suffix_append marker _))
  have hne : Text.trimLeft cs ≠ [] := by
    -- The text would end with the blanks that were dropped.
    intro hnil
    have hsplit : cs.takeWhile isBlank ++ Text.trimLeft cs = cs := List.takeWhile_append_dropWhile
    rw [hnil, List.append_nil] at hsplit
    have hall : ∀ d ∈ c :: cs, isBlank d = true := by
      intro d hd
      rcases List.mem_cons.mp hd with rfl | hd
      · exact hblank
      · exact List.all_eq_true.mp List.all_takeWhile d (hsplit ▸ hd)
    have hlast := h.last
    rw [Text.headIs_reverse_append_of_ne_nil (by simp),
      Literal.headIs_reverse_of_forall (by simp) hall] at hlast
    cases hlast
  refine ⟨?_, ?_⟩
  · rw [Text.headIs_append hmarker, ← Text.headIs_append hmarker (c :: cs), h.head]
  · rw [Text.headIs_reverse_append_of_ne_nil (by simp), ← List.singleton_append,
      Text.headIs_reverse_append_of_ne_nil hne]
    exact Text.headIs_reverse_of_suffix hsuffix h.last

theorem trimmed_normalize (comment : Text) : Trimmed (normalize comment) := by
  have htrim := Text.trimmed_trim comment
  have hsqueeze : ∀ t : Text, Trimmed t → Trimmed (squeezeRuns t) :=
    fun t h => ⟨squeezeRuns_head h.head, (squeezeRuns_last t).2 h.last⟩
  rw [normalize]
  apply hsqueeze
  split
  next c cs heq =>
      rw [heq] at htrim
      split
      next hblank => exact @trimmed_led ['/', '/'] cs c htrim (by simp) hblank
      next => exact heq ▸ htrim
  next _ c cs heq =>
      rw [heq] at htrim
      split
      next hblank => exact @trimmed_led ['#'] cs c htrim (by simp) hblank
      next => exact heq ▸ htrim
  next => exact htrim

theorem normalize_ne_nil {comment : Text} (hblank : comment.isEmptyLine = false) :
    normalize comment ≠ [] := by
  intro hnil
  have htokens := @tokens_normalize .plain comment
  rw [hnil, Text.tokens_nil, eq_comm, Text.tokens_eq_nil_iff, hblank] at htokens
  cases htokens

end Comment

/-! ### Lines -/

namespace Line

theorem trimmed_tidyCode {family : Family} {language : Option Text} {code out : Text}
    (htidy : tidyCode family language code = .ok out) : Trimmed out := by
  rw [tidyCode] at htidy
  split at htidy
  next =>
      cases htidy
      exact .nil
  next =>
      have hneat := Literal.neat_mask family language (Text.trimmed_trim code)
      exact Literal.trimmed_restoreTimes hneat.literals
        (Spacing.trimmed_rules family language _) htidy

theorem isEmptyLine_split_comment {family : Family} {line : Text}
    (hcomment : (Comment.split family line).comment ≠ []) :
    (Comment.split family line).comment.isEmptyLine = false := by
  rw [Comment.split] at hcomment ⊢
  split
  next hnone => simp [hnone] at hcomment
  next place hstart =>
      have hopens := Comment.opensComment_of_startFrom hstart
      rw [Text.isEmptyLine, List.all_eq_false]
      unfold Family.opensComment at hopens
      split at hopens
      next heq => exact ⟨'/', by simp [heq], by decide⟩
      next heq => exact ⟨'/', by simp [heq], by decide⟩
      next heq => exact ⟨'#', by simp [heq], by decide⟩
      next => cases hopens

theorem trimmed_assemble {code comment : Text} (hcode : Trimmed code)
    (hcomment : comment ≠ [] → comment.isEmptyLine = false) : Trimmed (assemble code comment) := by
  rw [assemble]
  split
  next => exact hcode
  next hne =>
      have hnormalized := Comment.trimmed_normalize comment
      split
      next => exact hnormalized
      next hcodeNe =>
          have hjoined := hcode.append hnormalized (by simpa using hcodeNe)
            (Comment.normalize_ne_nil (hcomment (by simpa using hne))) [' ']
          simpa using hjoined

theorem trimmed_tidyComment (family : Family) {line : Text} (h : Trimmed line) :
    Trimmed (tidyComment family line) := by
  cases family with
  | html => exact h
  | css => exact h
  | javascript => exact Comment.trimmed_normalize line
  | python => exact Comment.trimmed_normalize line
  | cFamily => exact Comment.trimmed_normalize line

/-- Tidying leaves no blank at either end, whether the line holds marks of its own or not. -/
theorem trimmed_tidy {family : Family} {language : Option Text} {line out : Text}
    (htidy : tidy family language line = .ok out) : Trimmed out := by
  rw [tidy_eq] at htidy
  split at htidy
  next =>
      cases htidy
      exact trimmed_tidyComment family (Text.trimmed_trim line)
  next =>
      obtain ⟨code, hcode, rfl⟩ := exists_of_map_eq_ok htidy
      exact trimmed_assemble (trimmed_tidyCode hcode) isEmptyLine_split_comment

end Line

end SourceLayout
