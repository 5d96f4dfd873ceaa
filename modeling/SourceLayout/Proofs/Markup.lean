import SourceLayout.Proofs.Literal.Rescan
import SourceLayout.Proofs.Spacing.Markup

/-!
# Tidying a line of a markup family twice

A tidied line is no comment if the line was none, it has the same literals, and the rules have
nothing more to do. So it is tidied to itself, unless colons stand in a train.
-/

namespace SourceLayout

open Text (tokens Trimmed)

/-! ### Trains of colons -/

/-- Colons that touch, and single ones after them, each after a space. -/
def train (touching single : Nat) : Text :=
  List.replicate touching ':' ++ (List.replicate single [' ', ':']).flatten

/-- Some blanks and nothing else. -/
def Text.IsGap (gap : Text) : Prop :=
  gap ≠ [] ∧ gap.all isBlank = true

/-- Two colons that touch, and two single ones after them, each after a gap. -/
def trainOver (gap gap' : Text) : Text :=
  ':' :: ':' :: (gap ++ ':' :: (gap' ++ [':']))

/-- Whether a train of colons stands in a text. -/
def Text.HasTrain (t : Text) : Prop :=
  ∃ gap gap' : Text, gap.IsGap ∧ gap'.IsGap ∧ trainOver gap gap' <:+: t

theorem Text.HasTrain.touching {t : Text} (h : t.HasTrain) : [':', ':'] <:+: t := by
  obtain ⟨gap, gap', _, _, hoccurs⟩ := h
  exact (List.prefix_append [':', ':'] _).isInfix.trans hoccurs

theorem mem_trainOver {gap gap' : Text} (hgap : gap.IsGap) (hgap' : gap'.IsGap) {c : Char}
    (hc : c ∈ trainOver gap gap') : c = ':' ∨ isBlank c = true := by
  have hblank := fun hc => List.all_eq_true.mp hgap.2 c hc
  have hblank' := fun hc => List.all_eq_true.mp hgap'.2 c hc
  simp only [trainOver, List.mem_cons, List.mem_append, List.not_mem_nil, or_false] at hc
  tauto

theorem Text.trim_occurs (t : Text) : t.trim <:+: t := by
  have hright : t.trim <+: t.trimLeft := by
    rw [Text.trim, ← List.reverse_suffix, Text.trimRight, List.reverse_reverse]
    exact List.dropWhile_suffix isBlank
  exact hright.isInfix.trans (List.dropWhile_suffix isBlank).isInfix

namespace Spacing

theorem exists_of_spotsFrom_append {gap : Bool} {t : Text} {left right : List Spot} {spot : Spot}
    (hspots : spotsFrom gap t = left ++ spot :: right) :
    ∃ before after, t = before ++ spot.char :: after ∧ spots after = right := by
  induction t generalizing gap left with
  | nil => simp [spotsFrom] at hspots
  | cons c cs ih =>
      cases hc : isBlank c with
      | true =>
          rw [spotsFrom_blank hc] at hspots
          obtain ⟨before, after, rfl, hafter⟩ := ih hspots
          exact ⟨c :: before, after, rfl, hafter⟩
      | false =>
          rw [spotsFrom_solid hc] at hspots
          cases left with
          | nil =>
              obtain ⟨rfl, hrest⟩ := List.cons.inj hspots
              exact ⟨[], cs, rfl, hrest⟩
          | cons first others =>
              obtain ⟨before, after, rfl, hafter⟩ := ih (List.cons.inj hspots).2
              exact ⟨c :: before, after, rfl, hafter⟩

theorem exists_of_spots_cons {t : Text} {spot : Spot} {rest : List Spot}
    (hspots : spots t = spot :: rest) :
    ∃ blanks after : Text, t = blanks ++ spot.char :: after ∧ blanks.all isBlank = true ∧
      (!blanks.isEmpty) = spot.gap ∧ spots after = rest := by
  obtain ⟨blanks, after, rfl, hblanks, hafter⟩ := exists_blanks t
  rw [spots, spotsFrom_gap hblanks] at hspots
  cases after with
  | nil => cases hspots
  | cons c cs =>
      rw [spotsFrom_solid hafter, List.cons.injEq] at hspots
      obtain ⟨rfl, hrest⟩ := hspots
      exact ⟨blanks, cs, rfl, hblanks, rfl, hrest⟩

/-- Spots that form a train come from a train of the text. -/
theorem hasTrain_of_train {t : Text} (htrain : Train (spots t)) : t.HasTrain := by
  obtain ⟨gap, left, right, hspots⟩ := htrain
  have hsplit : spotsFrom false t = left ++ ⟨gap, ':'⟩ ::
      ⟨false, ':'⟩ :: ⟨true, ':'⟩ :: ⟨true, ':'⟩ :: right := by
    rw [← spots, ← hspots]
    simp
  obtain ⟨before, after, rfl, hafter⟩ := exists_of_spotsFrom_append hsplit
  obtain ⟨blanks, after, rfl, _, hnone, hafter⟩ := exists_of_spots_cons hafter
  obtain ⟨first, after, rfl, hfirst, hsome, hafter⟩ := exists_of_spots_cons hafter
  obtain ⟨second, after, rfl, hsecond, hsome', _⟩ := exists_of_spots_cons hafter
  obtain rfl : blanks = [] := by simpa using hnone
  refine ⟨first, second, ⟨by simpa using hsome, hfirst⟩, ⟨by simpa using hsome', hsecond⟩, ?_⟩
  exact ⟨before, after, by simp [trainOver]⟩

end Spacing

namespace Literal

/-- What stands at the head of a masked text and belongs to no mark stood at the head of the
text. -/
theorem Finder.starts_of_maskFrom {find : Finder} {word : Text}
    (hforeign : ∀ c ∈ word, isForeign c = true) (before t : Text) (literals : List Text)
    (hstarts : word <+: (find.maskFrom before 0 t literals).text) : word <+: t := by
  induction before, t using scan_induct find generalizing word literals with
  | done before => exact hstarts
  | passed before c cs hfind ih =>
      cases word with
      | nil => exact List.nil_prefix
      | cons d ds =>
          obtain ⟨hd, hds⟩ := List.forall_mem_cons.mp hforeign
          rw [maskFrom_cons hfind, Masked.prepend_text, List.singleton_append,
            List.cons_prefix_cons] at hstarts
          exact List.cons_prefix_cons.mpr ⟨hstarts.1, ih hds literals hstarts.2⟩
  | found before c cs n hfind _ =>
      cases word with
      | nil => exact List.nil_prefix
      | cons d ds =>
          have hd := (List.forall_mem_cons.mp hforeign).1
          rw [maskFrom_span hfind, Masked.prepend_text, mark_append, List.cons_prefix_cons] at hstarts
          rw [hstarts.1] at hd
          exact absurd hd (by decide)

theorem occurs_of_append {word left right : Text} (hne : word ≠ [])
    (hleft : ∀ c ∈ word, c ∉ left) (hoccurs : word <:+: left ++ right) : word <:+: right := by
  induction left with
  | nil => exact hoccurs
  | cons c cs ih =>
      rw [List.cons_append, List.infix_cons_iff] at hoccurs
      rcases hoccurs with hstarts | hlater
      · cases word with
        | nil => exact absurd rfl hne
        | cons d ds =>
            obtain ⟨rfl, _⟩ := List.cons_prefix_cons.mp hstarts
            exact absurd List.mem_cons_self (hleft d List.mem_cons_self)
      · exact ih (fun d hd hmem => hleft d hd (List.mem_cons_of_mem c hmem)) hlater

theorem Finder.occurs_of_maskFrom {find : Finder} {word : Text} (hne : word ≠ [])
    (hforeign : ∀ c ∈ word, isForeign c = true) (before t : Text) (literals : List Text)
    (hoccurs : word <:+: (find.maskFrom before 0 t literals).text) : word <:+: t := by
  induction before, t using scan_induct find generalizing literals with
  | done before => exact hoccurs
  | passed before c cs hfind ih =>
      have hstarts := @Finder.starts_of_maskFrom find word hforeign before (c :: cs) literals
      rw [maskFrom_cons hfind, Masked.prepend_text, List.singleton_append] at hoccurs hstarts
      rcases List.infix_cons_iff.mp hoccurs with hhead | hlater
      · exact (hstarts hhead).isInfix
      · exact (ih literals hlater).trans (List.suffix_cons c cs).isInfix
  | found before c cs n hfind ih =>
      rw [maskFrom_span hfind, Masked.prepend_text] at hoccurs
      have hmark : ∀ d ∈ word, d ∉ mark literals.length := by
        intro d hd hmem
        have hown := hforeign d hd
        rw [isForeign_of_mem_mark hmem] at hown
        cases hown
      have hlater := ih _ (occurs_of_append hne hmark hoccurs)
      exact hlater.trans ((List.drop_suffix n cs).trans (List.suffix_cons c cs)).isInfix

theorem occurs_of_mask {family : Family} {language : Option Text} {code word : Text}
    (hne : word ≠ [])
    (hforeign : ∀ c ∈ word, isForeign c = true)
    (hoccurs : word <:+: (mask family language code).text) : word <:+: code :=
  mask_induct (motive := fun masked => word <:+: masked.text → word <:+: code)
    (fun find _ _ hmasked hrun => hmasked (find.occurs_of_maskFrom hne hforeign [] _ _ hrun)) id hoccurs

theorem isForeign_of_isBlank {c : Char} (hc : isBlank c = true) : isForeign c = true := by
  have hopen : isBlank markOpen = false := by decide
  have hclose : isBlank markClose = false := by decide
  simp only [isForeign, isDecimal_of_isBlank c hc, Bool.not_false, Bool.and_true, Bool.and_eq_true,
    bne_iff_ne]
  constructor <;> rintro rfl <;> simp_all

theorem hasTrain_of_mask {family : Family} {language : Option Text} {code : Text}
    (htrain : (mask family language code).text.HasTrain) : code.HasTrain := by
  obtain ⟨gap, gap', hgap, hgap', hoccurs⟩ := htrain
  refine ⟨gap, gap', hgap, hgap', occurs_of_mask (by simp [trainOver]) ?_ hoccurs⟩
  intro c hc
  rcases mem_trainOver hgap hgap' hc with rfl | hblank
  · decide
  · exact isForeign_of_isBlank hblank

theorem trimmed_mask (family : Family) (language : Option Text) {code : Text} (h : Trimmed code) :
    Trimmed (mask family language code).text := by
  refine ⟨?_, (neat_mask family language h).last⟩
  refine mask_induct (motive := fun masked => headIs isBlank masked.text = false) ?_ h.head
  intro find _ masked hhead
  rw [Bool.eq_false_iff] at hhead ⊢
  exact mt (Finder.headIs_of_maskFrom (by decide)) hhead

end Literal

namespace Line

open Literal (mask markOpen numberLimit)

variable {words : WordClass} {family : Family} {language : Option Text}

/-! ### Comments -/

theorem start?_eq_none (hfamily : family = .html ∨ family = .css) (line : Text) :
    Comment.start? family line = none := by
  have hopens : ∀ t, family.opensComment t = false := by
    intro t
    rcases hfamily with rfl | rfl <;> cases t <;> rfl
  have hall : ∀ (t : Text) (previous inside : Option Char),
      Comment.startFrom family previous inside t = none := by
    intro t
    induction t with
    | nil => exact fun _ _ => rfl
    | cons c cs ih =>
        intro previous inside
        cases inside with
        | some stop => rw [Comment.startFrom, ih, Option.map_none]
        | none => rw [Comment.startFrom, hopens, if_neg Bool.false_ne_true, ih, Option.map_none]
  exact hall line none none

theorem split_eq (hfamily : family = .html ∨ family = .css) (line : Text) :
    Comment.split family line = ⟨line, []⟩ := by
  rw [Comment.split, start?_eq_none hfamily]

/-- In the markup families a line is either a comment as a whole, or code as a whole. -/
theorem tidy_markup (hfamily : family = .html ∨ family = .css) (line : Text) :
    tidy family language line =
      if isComment family line.trim then .ok line.trim else tidyCode family language line.trim := by
  have hcomment : tidyComment family line.trim = line.trim := by
    rcases hfamily with rfl | rfl <;> rfl
  have hassemble : (fun code => assemble code []) = id := rfl
  rw [tidy_eq, split_eq hfamily, hcomment, hassemble, Except.map_id]
  rfl

theorem startsWith_of_tokens {line out word : Text} (hne : word ≠ [])
    (hword : word.all words.has = true) (hline : Trimmed line)
    (htokens : tokens words out = tokens words line) (hstarts : out.startsWith word = true) :
    line.startsWith word = true := by
  obtain ⟨rest, rfl⟩ := List.isPrefixOf_iff_prefix.mp hstarts
  obtain ⟨gap, rest', rfl, hgap, _⟩ :=
    Text.exists_of_tokens_append hne (List.all_eq_true.mp hword) htokens.symm
  obtain rfl : gap = [] := by
    cases gap with
    | nil => rfl
    | cons b bs =>
        have hb : isBlank b = false := hline.head
        simp [hb] at hgap
  exact List.isPrefixOf_iff_prefix.mpr (List.prefix_append word rest')

theorem endsWith_of_tokens {line out word : Text} (hne : word ≠ [])
    (hword : word.all words.has = true) (hline : Trimmed line)
    (htokens : tokens words out = tokens words line) (hends : out.endsWith word = true) :
    line.endsWith word = true := by
  obtain ⟨front, rfl⟩ := List.isSuffixOf_iff_suffix.mp hends
  obtain ⟨left, right, rfl, hright⟩ := Text.exists_split_of_tokens htokens.symm
  rw [← List.append_nil word] at hright
  obtain ⟨gap, rest, rfl, _, hrest, _⟩ :=
    Text.exists_of_tokens_append hne (List.all_eq_true.mp hword) hright
  have hsuffix : rest <:+ left ++ (gap ++ (word ++ rest)) := by
    rw [← List.append_assoc, ← List.append_assoc]
    exact List.suffix_append _ rest
  obtain rfl := Text.eq_nil_of_tokens_eq_nil hrest
    (Text.headIs_reverse_of_suffix hsuffix hline.last)
  rw [List.append_nil, ← List.append_assoc]
  exact List.isSuffixOf_iff_suffix.mpr (List.suffix_append _ word)

theorem has_iff_occurs (word t : Text) : Text.has word t = true ↔ word <:+: t := by
  induction t with
  | nil => cases word <;> simp [Text.has]
  | cons c cs ih =>
      rw [Text.has, Bool.or_eq_true, ih, List.infix_cons_iff, List.isPrefixOf_iff_prefix]

theorem has_of_tokens {line out word : Text} (hne : word ≠ []) (hword : word.all words.has = true)
    (htokens : tokens words out = tokens words line) (hhas : Text.has word out = true) :
    Text.has word line = true := by
  rw [has_iff_occurs] at hhas ⊢
  obtain ⟨front, rest, rfl⟩ := hhas
  rw [List.append_assoc] at htokens
  obtain ⟨left, right, rfl, hright⟩ := Text.exists_split_of_tokens htokens.symm
  obtain ⟨gap, rest', rfl, _⟩ :=
    Text.exists_of_tokens_append hne (List.all_eq_true.mp hword) hright
  exact ⟨left ++ gap, rest', by simp⟩

/-- A tidied line is tidied to itself, if the rules have nothing more to do and no comment comes
up. -/
theorem Scans.tidy_tidied (h : Scans words family language)
    (hfamily : family = .html ∨ family = .css)
    (hcomment : ∀ {line out : Text}, Trimmed line → tokens words out = tokens words line →
      isComment family out = true → isComment family line = true)
    {line out : Text} (hplain : markOpen ∉ line) (hlength : line.length ≤ numberLimit)
    (hsettled : Spacing.applyAll (Spacing.rules family language)
        (Spacing.applyAll (Spacing.rules family language) (mask family language line.trim).text) =
      Spacing.applyAll (Spacing.rules family language) (mask family language line.trim).text)
    (htidy : tidy family language line = .ok out) : tidy family language out = .ok out := by
  have htrimmed : out.trim = out := (trimmed_tidy htidy).trim_eq
  rw [tidy_markup hfamily] at htidy
  rw [tidy_markup hfamily, htrimmed]
  split at htidy
  next hline =>
      cases htidy
      rw [if_pos hline]
  next hline =>
      have hsub := Text.trim_sublist line
      have hplain' : markOpen ∉ line.trim := fun hmem => hplain (hsub.subset hmem)
      have hlength' := Nat.le_trans hsub.length_le hlength
      have htrim : line.trim.trim = line.trim := (Text.trimmed_trim line).trim_eq
      have hcode : tidyCode family language out = .ok out :=
        h.tidyCode_tidied hplain' hlength' (by rwa [htrim]) htidy
      by_cases hne : line.trim = []
      · rw [hne, tidyCode] at htidy
        cases htidy
        rcases hfamily with rfl | rfl <;> rfl
      · have htokens := (h.mask_tidied hplain' hlength' (by rwa [htrim]) htidy).2
        rw [htrim] at htokens
        rw [if_neg (mt (hcomment (Text.trimmed_trim line) htokens) hline), hcode]

/-! ### The two families -/

theorem has_except {signs : Text} (hsigns : signs.all Literal.isForeign = true) (c : Char)
    (hc : Literal.isForeign c = false) : (WordClass.except signs).has c = true := by
  have hblank : isBlank c = false := by
    rw [Bool.eq_false_iff]
    intro hblank
    rw [Literal.isForeign_of_isBlank hblank] at hc
    cases hc
  have hsign : signs.contains c = false := by
    rw [Bool.eq_false_iff]
    intro hsign
    rw [List.all_eq_true.mp hsigns c (by simpa using hsign)] at hc
    cases hc
  simp only [WordClass.except, hblank, hsign]
  rfl

theorem html_scans : Scans (.except ['=', '/']) .html (some "html".toList) where
  marks := has_except (by decide)
  finders := by
    have hfinders : Literal.finders .html (some "html".toList) = [Literal.quoted .html] := rfl
    rw [hfinders, List.forall_mem_singleton]
    exact Literal.quoted_robust (by decide) (by decide)
  rules := by decide

theorem css_scans : Scans (.except [';', '{', '}', ',', ':']) .css (some "css".toList) where
  marks := has_except (by decide)
  finders := by
    have hfinders : Literal.finders .css (some "css".toList) =
        [Literal.quoted .css, Literal.resource] := rfl
    rw [hfinders, List.forall_mem_cons, List.forall_mem_singleton]
    exact ⟨Literal.quoted_robust (by decide) (by decide), Literal.resource_robust (by decide)⟩
  rules := by decide

theorem tidy_html_tidied {line out : Text} (hplain : markOpen ∉ line)
    (hlength : line.length ≤ numberLimit) (htidy : tidy .html (some "html".toList) line = .ok out) :
    tidy .html (some "html".toList) out = .ok out := by
  refine html_scans.tidy_tidied (.inl rfl) ?_ hplain hlength
    (Spacing.applyAll_htmlRules_settled _) htidy
  intro line out hline htokens hcomment
  rw [isComment, Bool.or_eq_true] at hcomment ⊢
  exact hcomment.imp (startsWith_of_tokens (by decide) (by decide) hline htokens)
    (has_of_tokens (by decide) (by decide) htokens)

theorem tidy_css_tidied {line out : Text} (hplain : markOpen ∉ line)
    (hlength : line.length ≤ numberLimit) (hfree : ¬line.HasTrain)
    (htidy : tidy .css (some "css".toList) line = .ok out) :
    tidy .css (some "css".toList) out = .ok out := by
  have hsettled : Spacing.applyAll Spacing.cssRules (Spacing.applyAll Spacing.cssRules
      (mask .css (some "css".toList) line.trim).text) =
        Spacing.applyAll Spacing.cssRules (mask .css (some "css".toList) line.trim).text := by
    apply Spacing.applyAll_cssRules_settled
      (Literal.trimmed_mask .css (some "css".toList) (Text.trimmed_trim line))
    intro htrain
    obtain ⟨gap, gap', hgap, hgap', hoccurs⟩ :=
      Literal.hasTrain_of_mask (Spacing.hasTrain_of_train htrain)
    exact hfree ⟨gap, gap', hgap, hgap', hoccurs.trans (Text.trim_occurs line)⟩
  refine css_scans.tidy_tidied (.inr rfl) ?_ hplain hlength hsettled htidy
  intro line out hline htokens hcomment
  rw [isComment, Bool.or_eq_true] at hcomment ⊢
  exact hcomment.imp (startsWith_of_tokens (by decide) (by decide) hline htokens)
    (endsWith_of_tokens (by decide) (by decide) hline htokens)

/-! ### A train of colons -/

/-- No literal starts where no word does. -/
theorem Scans.mask_eq_self (h : Scans words family language) {t : Text}
    (ht : ∀ c ∈ t, words.has c = false) : mask family language t = ⟨t, []⟩ := by
  refine Literal.mask_eq_of_run fun find hfind => ?_
  have hpass := @Literal.Finder.maskFrom_of_forall find t (by
    intro c hc before rest
    cases hfound : find before (c :: rest) with
    | zero => rfl
    | succ n =>
        have hstarts := (h.finders find hfind).starts before c rest n hfound
        rw [ht c hc] at hstarts
        cases hstarts) [] [] []
  rw [List.append_nil] at hpass
  rw [Literal.Finder.run, hpass]
  simp [Literal.Finder.maskFrom, Literal.Masked.prepend]

end Line

namespace Spacing

/-- The spots of a train. -/
def trainSpots (touching single : Nat) : List Spot :=
  List.replicate touching ⟨false, ':'⟩ ++ List.replicate single ⟨true, ':'⟩

theorem mem_trainSpots {touching single : Nat} {spot : Spot}
    (hspot : spot ∈ trainSpots touching single) : spot.char = ':' := by
  rcases List.mem_append.mp hspot with hmem | hmem <;> rw [List.eq_of_mem_replicate hmem]

theorem render_trainSpots (touching single : Nat) :
    render (trainSpots touching single) = train touching single := by
  induction touching with
  | zero =>
      induction single with
      | zero => rfl
      | succ single ih => simpa [trainSpots, train, List.replicate_succ, render] using ih
  | succ touching ih => simpa [trainSpots, train, List.replicate_succ, render] using ih

theorem spots_train (touching single : Nat) :
    spots (train touching single) = trainSpots touching single := by
  rw [← render_trainSpots]
  refine spotsFrom_render fun spot hspot => ?_
  rw [mem_trainSpots hspot]
  decide

/-- Of single colons in a row the first one is drawn to what stands before, if that was none. -/
theorem colons_single (after : Bool) (single : Nat) :
    colons (some ':') after (List.replicate (single + 1) ⟨true, ':'⟩) =
      ⟨after, ':'⟩ :: List.replicate single ⟨true, ':'⟩ := by
  induction single generalizing after with
  | zero =>
      have hsingle : isSingle (some ':') ⟨true, ':'⟩ none = true := by decide
      rw [List.replicate_succ, List.replicate_zero, colons_cons, List.head?_nil, hsingle]
      rfl
  | succ single ih =>
      have hsingle : isSingle (some ':') ⟨true, ':'⟩ (some ⟨true, ':'⟩) = true := by decide
      rw [List.replicate_succ, colons_cons, List.replicate_succ, List.head?_cons, hsingle,
        ← List.replicate_succ, ih true, ← List.replicate_succ]
      rfl

/-- Colons that touch the one before them stay where they are. -/
theorem colons_touching (touching : Nat) (rest : List Spot) :
    colons (some ':') false (List.replicate touching ⟨false, ':'⟩ ++ rest) =
      List.replicate touching ⟨false, ':'⟩ ++ colons (some ':') false rest := by
  induction touching with
  | zero => rfl
  | succ touching ih =>
      have hother : ∀ next, isSingle (some ':') ⟨false, ':'⟩ next = false := by
        intro next
        rw [Bool.eq_false_iff, Ne, isSingle_iff]
        simp
      rw [List.replicate_succ, List.cons_append, colons_cons, hother, ih]
      rfl

theorem colons_train (touching single : Nat) :
    colons none false (trainSpots (touching + 2) (single + 1)) =
      trainSpots (touching + 3) single := by
  have hother : isSingle none ⟨false, ':'⟩ (some ⟨false, ':'⟩) = false := by decide
  have hjoin : ∀ rest : List Spot,
      List.replicate (touching + 1) ⟨false, ':'⟩ ++ ⟨false, ':'⟩ :: rest =
        List.replicate (touching + 2) ⟨false, ':'⟩ ++ rest := by
    intro rest
    rw [@List.replicate_succ' (touching + 1), List.append_assoc, List.singleton_append]
  have hfirst : colons none false (trainSpots (touching + 2) (single + 1)) =
      ⟨false, ':'⟩ :: colons (some ':') false
        (List.replicate (touching + 1) ⟨false, ':'⟩ ++
          List.replicate (single + 1) ⟨true, ':'⟩) := by
    rw [trainSpots, List.replicate_succ, List.cons_append, colons_cons, List.replicate_succ,
      List.cons_append, List.head?_cons, hother]
    rfl
  rw [hfirst, colons_touching, colons_single, hjoin, ← List.cons_append, ← List.replicate_succ,
    trainSpots]

theorem regap_train (before : Text) (list : List Spot) (hlist : ∀ spot ∈ list, spot.char = ':') :
    regap cssGap (':' :: before) list = list := by
  induction list generalizing before with
  | nil => rfl
  | cons spot rest ih =>
      obtain ⟨hspot, hrest⟩ := List.forall_mem_cons.mp hlist
      obtain ⟨gap, char⟩ := spot
      obtain rfl : char = ':' := hspot
      rw [regap, ih _ hrest]
      rfl

theorem selectorLength_colons (count : Nat) : selectorLength (List.replicate count ':') = 0 := by
  have hhead : ∀ c, c ≠ ':' → headIs (· == c) (List.replicate count ':') = false := by
    intro c hc
    cases count with
    | zero => rfl
    | succ count => simpa [List.replicate_succ] using Ne.symm hc
  have hstarts : Text.startsWith (List.replicate count ':') ['@'] = false :=
    Comment.startsWith_eq_false (hhead '@' (by decide))
  have hends : Text.endsWith (List.replicate count ':') [','] = false := by
    have hlast : headIs (· == ',') (List.replicate count ':').reverse = false := by
      rw [List.reverse_replicate]
      exact hhead ',' (by decide)
    exact Comment.startsWith_eq_false hlast
  have hbrace : '{' ∉ List.replicate count ':' := by simp
  rw [selectorLength, hstarts, splitAtLastBrace?_eq_none hbrace, hends]
  rfl

end Spacing

theorem mem_train {touching single : Nat} {c : Char} (hc : c ∈ train touching single) :
    c = ':' ∨ c = ' ' := by
  rcases List.mem_append.mp hc with hmem | hmem
  · exact .inl (List.eq_of_mem_replicate hmem)
  · obtain ⟨part, hpart, hmem⟩ := List.mem_flatten.mp hmem
    rw [List.eq_of_mem_replicate hpart] at hmem
    simpa [or_comm] using hmem

/-- A train ends in a colon. -/
theorem headIs_reverse_train {p : Char → Bool} (hp : p ':' = false) (touching single : Nat) :
    headIs p (train touching single).reverse = false := by
  cases single with
  | zero =>
      apply Text.headIs_reverse_of_forall_false
      intro c hc
      rw [train, List.replicate_zero, List.flatten_nil, List.append_nil] at hc
      rwa [List.eq_of_mem_replicate hc]
  | succ single =>
      rw [train, List.replicate_succ', List.flatten_append, ← List.append_assoc]
      simpa using hp

theorem trimmed_train (touching single : Nat) : Trimmed (train (touching + 1) single) where
  head := by
    have hcolon : isBlank ':' = false := by decide
    rw [train, List.replicate_succ]
    exact hcolon
  last := headIs_reverse_train (by decide) _ _

namespace Spacing

/-- The rules for CSS draw one more colon of a train to those that touch. -/
theorem applyAll_cssRules_train (touching single : Nat) :
    applyAll cssRules (train (touching + 2) (single + 1)) = train (touching + 3) single := by
  have hchars : (trainSpots (touching + 2) (single + 1)).map Spot.char =
      List.replicate (touching + 2 + (single + 1)) ':' := by
    simp [trainSpots]
  have hgaps : regap cssGap [] (trainSpots (touching + 3) single) =
      trainSpots (touching + 3) single := by
    rw [trainSpots, List.replicate_succ, List.cons_append, regap, regap_train]
    · rfl
    · exact fun spot hspot => @mem_trainSpots (touching + 2) single spot hspot
  rw [applyAll_cssRules (trimmed_train _ _), spots_train, declare, hchars, selectorLength_colons,
    List.take_zero, List.drop_zero, List.nil_append, colons_train, hgaps, render_trainSpots]

end Spacing

namespace Line

open Literal (mask)

/-- Tidying draws one more colon of a train to those that touch. -/
theorem tidy_train (touching single : Nat) :
    tidy .css (some "css".toList) (train (touching + 2) (single + 1)) =
      .ok (train (touching + 3) single) := by
  have htrim := (trimmed_train (touching + 1) (single + 1)).trim_eq
  have hmask : mask .css (some "css".toList) (train (touching + 2) (single + 1)) =
      ⟨train (touching + 2) (single + 1), []⟩ := by
    refine css_scans.mask_eq_self fun c hc => ?_
    rcases mem_train hc with rfl | rfl <;> decide
  have hcomment : isComment .css (train (touching + 2) (single + 1)) = false := by
    have hlast := @headIs_reverse_train (· == '/') (by decide) (touching + 2) (single + 1)
    have hend : (train (touching + 2) (single + 1)).endsWith "*/".toList = false :=
      Comment.startsWith_eq_false hlast
    rw [isComment, hend, Bool.or_false]
    rfl
  have hplain : Literal.markOpen ∉ train (touching + 3) single := by
    intro hmem
    rcases mem_train hmem with h | h <;> revert h <;> decide
  rw [tidy_markup (.inr rfl), htrim, hcomment, if_neg Bool.false_ne_true, tidyCode, htrim,
    if_neg (by simp [train, List.replicate_succ]), hmask]
  change Literal.restore
      ⟨Spacing.applyAll Spacing.cssRules (train (touching + 2) (single + 1)), []⟩ =
    _
  rw [Spacing.applyAll_cssRules_train, Literal.restore, Literal.restoreTimes, if_neg hplain]

end Line

end SourceLayout
