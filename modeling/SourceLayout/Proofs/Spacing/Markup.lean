import SourceLayout.Proofs.Spacing.Spot
import SourceLayout.Proofs.Trimmed

/-!
# The rules of the markup families

Told on spots, the rules for HTML do nothing but remove gaps, each by the characters around it, so
a second time they find nothing to remove. The rules for CSS set gaps the same way, up to the colons
of declarations: a single colon is drawn to what stands before it, and a colon that is drawn to two
others is no single one any more.
-/

namespace SourceLayout.Spacing

open Text (Trimmed)

theorem isBlank_of_mem_regap {set : Text → Char → Bool → Bool} {before : Text} {list : List Spot}
    (hsolid : ∀ spot ∈ list, isBlank spot.char = false) {spot : Spot}
    (hspot : spot ∈ regap set before list) : isBlank spot.char = false := by
  have hchar : spot.char ∈ list.map Spot.char := by
    rw [← map_char_regap set before list]
    exact List.mem_map_of_mem hspot
  obtain ⟨old, hold, hsame⟩ := List.mem_map.mp hchar
  rw [← hsame]
  exact hsolid old hold

/-! ### Closing tags -/

def closingTag : Pattern :=
  [.exactly "<", .tight, .exactly "/", .tight]

/-- No gap stays before or after the slash of a closing tag. -/
def tagGap (before : Text) (c : Char) (gap : Bool) : Bool :=
  gap && !(headIs (· == '<') before && c == '/') && !before.startsWith ['/', '<']

theorem match?_closingTag (before : Text) {blanks blanks' rest : Text}
    (hblanks : blanks.all isBlank = true) (hblanks' : blanks'.all isBlank = true)
    (hrest : headIs isBlank rest = false) :
    Pattern.match? before ('<' :: (blanks ++ '/' :: (blanks' ++ rest))) closingTag =
      some ⟨'<' :: (blanks ++ '/' :: blanks'), ['<', '/']⟩ := by
  have htake : (blanks ++ '/' :: (blanks' ++ rest)).takeWhile isBlank = blanks :=
    takeWhile_blanks hblanks rfl
  have htake' : (blanks' ++ rest).takeWhile isBlank = blanks' := takeWhile_blanks hblanks' hrest
  simp [closingTag, Pattern.match?, Part.match?, Part.exactly, Part.tight, Nat.add_comm 1, htake,
    htake']

theorem closingTag_read {before rest read written : Text}
    (hmatch : closingTag.Matches rest before read written) :
    ∃ blanks blanks', blanks.all isBlank = true ∧ blanks'.all isBlank = true ∧
      headIs isBlank rest = false ∧ read = '<' :: (blanks ++ '/' :: blanks') ∧
      written = ['<', '/'] := by
  obtain _ | ⟨hopen, _ | @⟨_, blanks, _, _, _, _, _, hblanks,
    _ | ⟨hslash, _ | @⟨_, blanks', _, _, _, _, _, hblanks', ⟨⟩⟩⟩⟩⟩ := hmatch
  cases hopen with
  | token hopen =>
  cases hblanks with
  | gap hblanks =>
  cases hslash with
  | token hslash =>
  cases hblanks' with
  | gap hblanks' _ hrest =>
      obtain rfl := List.mem_singleton.mp hopen
      obtain rfl := List.mem_singleton.mp hslash
      exact ⟨blanks, blanks', hblanks, hblanks', hrest, by simp, by simp⟩

/-- No slash follows an opening bracket that opens no closing tag. -/
theorem headIs_slash_eq_false {before cs : Text}
    (hnone : ∀ m, Pattern.match? before ('<' :: cs) closingTag = some m → m.read = []) :
    headIs (· == '/') cs.trimLeft = false := by
  obtain ⟨blanks, rest, rfl, hblanks, hrest⟩ := exists_blanks cs
  rw [Text.trimLeft_blanks_append hblanks, Text.trimLeft_eq_self hrest]
  cases rest with
  | nil => rfl
  | cons d ds =>
      rw [headIs_cons, beq_eq_false_iff_ne]
      rintro rfl
      obtain ⟨blanks', after, rfl, hblanks', hafter⟩ := exists_blanks ds
      cases hnone _ (match?_closingTag before hblanks hblanks' hafter)

/-- Right after a closing tag's slash the first gap makes no difference. -/
theorem regap_tagGap_after {before rest : Text} (hrest : headIs isBlank rest = false) (gap : Bool) :
    regap tagGap ('/' :: '<' :: before) (spotsFrom gap rest) =
      regap tagGap ('/' :: '<' :: before) (spots rest) := by
  cases rest with
  | nil => rfl
  | cons c cs =>
      have hc : isBlank c = false := hrest
      rw [spots, spotsFrom_solid hc, spotsFrom_solid hc, regap, regap]
      simp [tagGap, Text.startsWith]

theorem tagGap_eq {chars : Text} {c : Char} {gap : Bool}
    (hslash : headIs (· == '<') chars = true → c ≠ '/')
    (hafter : chars.startsWith ['/', '<'] = true → gap = false) : tagGap chars c gap = gap := by
  cases gap with
  | false => rfl
  | true =>
      have hstarts : chars.startsWith ['/', '<'] = false := by
        rw [Bool.eq_false_iff]
        intro hstarts
        cases hafter hstarts
      have hopen : (headIs (· == '<') chars && c == '/') = false := by
        rw [Bool.eq_false_iff, Ne, Bool.and_eq_true, beq_iff_eq]
        exact fun hopen => hslash hopen.1 hopen.2
      rw [tagGap, hstarts, hopen]
      rfl

theorem regap_tagGap_tag {chars blanks blanks' after : Text} {gap : Bool}
    (hgap : tagGap chars '<' gap = gap) (hblanks : blanks.all isBlank = true)
    (hblanks' : blanks'.all isBlank = true) (hafter : headIs isBlank after = false) :
    regap tagGap chars (spotsFrom gap ('<' :: (blanks ++ '/' :: blanks') ++ after)) =
      ⟨gap, '<'⟩ :: ⟨false, '/'⟩ :: regap tagGap ('/' :: '<' :: chars) (spots after) := by
  have hopen : isBlank '<' = false := by decide
  have hslash : isBlank '/' = false := by decide
  have hnone : tagGap ('<' :: chars) '/' (false || !blanks.isEmpty) = false := by simp [tagGap]
  have hsplit : '<' :: (blanks ++ '/' :: blanks') ++ after =
      '<' :: (blanks ++ '/' :: (blanks' ++ after)) := by simp
  rw [hsplit, spotsFrom_solid hopen, regap, hgap, spotsFrom_gap hblanks, spotsFrom_solid hslash,
    regap, hnone, spotsFrom_gap hblanks', regap_tagGap_after hafter]

/-- What closing tags do to the spots. The text `chars` holds the characters of the spots before,
nearest first. -/
theorem spotsFrom_closingTag {before chars t : Text} {gap : Bool}
    (hslash : headIs (· == '<') chars = true → headIs (· == '/') t.trimLeft = false)
    (hafter : chars.startsWith ['/', '<'] = true → headIs isBlank t = false ∧ gap = false) :
    spotsFrom gap (closingTag.respaceFrom before 0 t) =
      regap tagGap chars (spotsFrom gap t) := by
  induction before, t using Pattern.respaceFrom_induct closingTag generalizing chars gap with
  | done before => rfl
  | found before read written rest hread hmatch ih =>
      obtain ⟨blanks, blanks', hblanks, hblanks', hrest, rfl, rfl⟩ :=
        closingTag_read (Pattern.matches_of_match? hmatch)
      have hopen : isBlank '<' = false := by decide
      have hclose : isBlank '/' = false := by decide
      have hgap : tagGap chars '<' gap = gap :=
        tagGap_eq (fun _ => by decide) fun hstarts => (hafter hstarts).2
      have hlater := @ih ('/' :: '<' :: chars) false (by simp) fun _ => ⟨hrest, rfl⟩
      rw [Pattern.respaceFrom_match hread hmatch, regap_tagGap_tag hgap hblanks hblanks' hrest,
        List.cons_append, List.singleton_append, spotsFrom_solid hopen, spotsFrom_solid hclose,
        hlater, spots]
  | passed before c cs hnone ih =>
      rw [Pattern.respaceFrom_passed hnone]
      cases hc : isBlank c with
      | true =>
          rw [spotsFrom_blank hc, spotsFrom_blank hc]
          refine ih ?_ ?_
          · rwa [Text.trimLeft, List.dropWhile_cons_of_pos hc] at hslash
          · intro hstarts
            have hsolid := (hafter hstarts).1
            rw [headIs_cons, hc] at hsolid
            cases hsolid
      | false =>
          have htrim : Text.trimLeft (c :: cs) = c :: cs := Text.trimLeft_eq_self hc
          rw [htrim, headIs_cons] at hslash
          have hopen : headIs (· == '<') chars = true → c ≠ '/' := by
            rintro hopen rfl
            cases hslash hopen
          rw [spotsFrom_solid hc, spotsFrom_solid hc, regap,
            tagGap_eq hopen fun hstarts => (hafter hstarts).2, ih]
          · intro hbracket
            obtain rfl : c = '<' := by simpa using hbracket
            exact headIs_slash_eq_false hnone
          · intro hstarts
            rw [Text.startsWith, List.isPrefixOf_iff_prefix, List.cons_prefix_cons] at hstarts
            obtain ⟨rfl, tail, rfl⟩ := hstarts
            exact absurd rfl (hopen rfl)

/-! ### HTML -/

/-- A gap stays unless a sign on either side of it removes it. -/
def htmlGap (before : Text) (c : Char) (gap : Bool) : Bool :=
  closeGap before c (tagGap before c (signGap false false '=' before c gap))

theorem applyAll_htmlRules (t : Text) :
    applyAll htmlRules t = render (regap htmlGap [] (spots t)) := by
  have hequals : spots (Pattern.respace [.tight, .exactly "=", .tight] t) =
      regap (signGap false false '=') [] (spots t) :=
    spots_respace_sign (by decide) false false t
  have hname : ∀ t, spots (Pattern.respace
      [.exactly "<", .run Char.isAlphanum [], .narrowed] t) = spots t :=
    Pattern.spots_respace (by decide)
  have htag : ∀ t, spots (closingTag.respace t) = regap tagGap [] (spots t) := by
    intro t
    exact @spotsFrom_closingTag [] [] t false (by simp) (by simp [Text.startsWith])
  have hslash : ∀ t, spots (Pattern.respace [.narrowed, .exactly "/>"] t) = spots t :=
    Pattern.spots_respace (by decide)
  simp only [applyAll, htmlRules, List.foldl_cons, List.foldl_nil, Rule.apply, Rule.pattern,
    collapseRule]
  rw [collapse_eq_render, hslash, ← closingTag, htag, hname, hequals, close_eq_regap, regap_regap,
    regap_regap]
  rfl

theorem htmlGap_htmlGap (before : Text) (c : Char) (gap : Bool) :
    htmlGap before c (htmlGap before c gap) = htmlGap before c gap := by
  have hkeep : ∀ gap, htmlGap before c gap = (gap && htmlGap before c true) := by
    intro gap
    cases gap with
    | true => rfl
    | false => simp [htmlGap, signGap, tagGap, closeGap]
  rw [hkeep (htmlGap before c gap), hkeep gap, Bool.and_assoc, Bool.and_self]

/-- Gaps that are set once by what does not change are set for good. -/
theorem regap_of_settled {set : Text → Char → Bool → Bool}
    (hset : ∀ before c gap, set before c (set before c gap) = set before c gap) (before : Text)
    (list : List Spot) : regap set before (regap set before list) = regap set before list := by
  rw [regap_regap]
  congr 1
  funext before c gap
  exact hset before c gap

theorem spots_render_regap (set : Text → Char → Bool → Bool) (t : Text) :
    spots (render (regap set [] (spots t))) = regap set [] (spots t) :=
  spotsFrom_render fun _ hspot => isBlank_of_mem_regap (fun _ => isBlank_of_mem_spotsFrom) hspot

/-- The rules for HTML have nothing to do on a text they have been applied to. -/
theorem applyAll_htmlRules_settled (t : Text) :
    applyAll htmlRules (applyAll htmlRules t) = applyAll htmlRules t := by
  rw [applyAll_htmlRules (applyAll htmlRules t), applyAll_htmlRules t, spots_render_regap,
    regap_of_settled htmlGap_htmlGap]

/-! ### Colons of declarations -/

/-- What spacing the single colons does to spots. -/
def colons (previous : Option Char) (after : Bool) (list : List Spot) : List Spot :=
  respot false true ':' (· == ':') previous after list

/-- A colon is single if it touches no other. -/
def isSingle (previous : Option Char) (spot : Spot) (next : Option Spot) : Bool :=
  isPivot ':' (· == ':') previous spot next

theorem isSingle_iff {previous : Option Char} {spot : Spot} {next : Option Spot} :
    isSingle previous spot next = true ↔
      spot.char = ':' ∧ (spot.gap = true ∨ previous ≠ some ':') ∧ next ≠ some ⟨false, ':'⟩ := by
  have hnext : (next.any fun spot => !spot.gap && spot.char == ':') = true ↔
      next = some ⟨false, ':'⟩ := by
    cases next with
    | none => simp
    | some spot =>
        obtain ⟨gap, char⟩ := spot
        cases gap <;> simp
  have hprevious : previous.any (· == ':') = true ↔ previous = some ':' := by
    cases previous <;> simp
  rw [isSingle, isPivot, Bool.and_eq_true, Bool.and_eq_true, Bool.or_eq_true, Bool.not_eq_true',
    Bool.not_eq_true', beq_iff_eq, ← Bool.not_eq_true, ← Bool.not_eq_true, hnext, hprevious,
    and_assoc]

theorem touches_of_not_single {previous : Option Char} {spot : Spot} {next : Option Spot}
    (hother : isSingle previous spot next = false) (hspot : spot.char = ':')
    (hnext : next ≠ some ⟨false, ':'⟩) : spot.gap = false ∧ previous = some ':' := by
  rw [← Bool.not_eq_true, isSingle_iff] at hother
  constructor
  · rw [Bool.eq_false_iff]
    exact fun hgap => hother ⟨hspot, .inl hgap, hnext⟩
  · apply Decidable.byContradiction
    exact fun hprevious => hother ⟨hspot, .inr hprevious, hnext⟩

theorem colons_cons (previous : Option Char) (after : Bool) (spot : Spot) (rest : List Spot) :
    colons previous after (spot :: rest) =
      ⟨if isSingle previous spot rest.head? then after else after || spot.gap, spot.char⟩ ::
        colons (some spot.char) (isSingle previous spot rest.head?) rest := by
  have hgap : (if isSingle previous spot rest.head? then false || (after && true)
      else if after then true else spot.gap) =
      if isSingle previous spot rest.head? then after else after || spot.gap := by
    cases after <;> simp
  rw [← hgap]
  rfl

/-- Two colons that touch, and two single ones after them. -/
def Train (list : List Spot) : Prop :=
  ∃ gap, [⟨gap, ':'⟩, ⟨false, ':'⟩, ⟨true, ':'⟩, ⟨true, ':'⟩] <:+: list

/-- Whether every gap is either left alone or set without a look at what it was. -/
def Sets (set : Text → Char → Bool → Bool) : Prop :=
  ∀ before c, (∀ gap, set before c gap = gap) ∨ ∃ value, ∀ gap, set before c gap = value

theorem Sets.comp {set set' : Text → Char → Bool → Bool} (h : Sets set) (h' : Sets set') :
    Sets fun before c gap => set before c (set' before c gap) := by
  intro before c
  rcases h before c with hkeep | ⟨value, hvalue⟩
  · rcases h' before c with hkeep' | ⟨value, hvalue⟩
    · exact .inl fun gap => (hkeep _).trans (hkeep' gap)
    · exact .inr ⟨value, fun gap => (hkeep _).trans (hvalue gap)⟩
  · exact .inr ⟨value, fun gap => hvalue _⟩

theorem Sets.settled {set : Text → Char → Bool → Bool} (h : Sets set) (before : Text) (c : Char)
    (gap : Bool) : set before c (set before c gap) = set before c gap := by
  rcases h before c with hkeep | ⟨value, hvalue⟩
  · exact hkeep _
  · rw [hvalue, hvalue]

theorem signGap_sets (left right : Bool) (sign : Char) : Sets (signGap left right sign) := by
  intro before c
  by_cases hc : c = sign
  · exact .inr ⟨left || (headIs (· == sign) before && right), fun gap => if_pos hc⟩
  · cases hbefore : headIs (· == sign) before with
    | true => exact .inr ⟨right, fun gap => by rw [signGap, if_neg hc, if_pos hbefore]⟩
    | false =>
        refine .inl fun gap => ?_
        rw [signGap, if_neg hc, hbefore, if_neg Bool.false_ne_true]

theorem closeGap_sets : Sets closeGap := by
  intro before c
  cases before with
  | nil => exact .inr ⟨false, fun gap => rfl⟩
  | cons d ds => exact .inl fun gap => rfl

/-- What is known between two spots, `history` before and `rest` after, when the colons are spaced
for the second time: `after` tells whether the colon before was single the first time, and `again`
whether it is so the second time. -/
structure Steady (history rest : List Spot) (after again : Bool) : Prop where
  kept : again = true → after = true
  lost : after = true → again = false → rest.head?.map Spot.char ≠ some ':'
  single : after = true →
    history.head?.map Spot.char = some ':' ∧ rest.head? ≠ some ⟨false, ':'⟩
  touching : history.head?.map Spot.char = some ':' → after = false →
    rest.head? = some ⟨true, ':'⟩ → ∃ gap older, history = ⟨false, ':'⟩ :: ⟨gap, ':'⟩ :: older
  free : ¬Train (history.reverse ++ rest)

section

variable {set : Text → Char → Bool → Bool} (hsets : Sets set)
  (hcolon : ∀ before gap, set (':' :: before) ':' gap = gap)

/-- The gap before the next spot after the first time. -/
theorem head?_regap_colons (before : Text) (previous : Option Char) (after : Bool)
    (rest : List Spot) :
    (regap set before (colons previous after rest)).head? = rest.head?.map fun next =>
      ⟨set before next.char (if isSingle previous next rest.tail.head? then after
        else after || next.gap), next.char⟩ := by
  cases rest with
  | nil => rfl
  | cons next others =>
      rw [colons_cons, regap]
      rfl

include hcolon

/-- A single colon does not touch the next one afterwards. -/
theorem head?_ne_of_single (before : Text) {rest : List Spot} :
    (regap set (':' :: before) (colons (some ':') true rest)).head? ≠ some ⟨false, ':'⟩ := by
  rw [head?_regap_colons]
  cases rest with
  | nil => simp
  | cons next others =>
      rw [List.head?_cons, Option.map_some, ne_eq, Option.some.injEq, Spot.mk.injEq]
      rintro ⟨hgap, hchar⟩
      rw [hchar, hcolon] at hgap
      simp at hgap

/-- Colons that touch before touch afterwards. -/
theorem head?_of_touching (before : Text) {rest : List Spot}
    (hnext : rest.head? = some ⟨false, ':'⟩) :
    (regap set (':' :: before) (colons (some ':') false rest)).head? = some ⟨false, ':'⟩ := by
  rw [head?_regap_colons, hnext, Option.map_some, hcolon]
  simp

section

variable {history rest : List Spot} {spot : Spot} {after again : Bool} {front : Text}

/-- The gap of a spot after the first time. -/
def spacedOnce (set : Text → Char → Bool → Bool) (front : Text) (history : List Spot) (spot : Spot)
    (rest : List Spot) (after : Bool) : Bool :=
  set (history.map Spot.char ++ front) spot.char
    (if isSingle (history.head?.map Spot.char) spot rest.head? then after else after || spot.gap)

/-- Whether a colon is single the second time. -/
def isSingleAgain (set : Text → Char → Bool → Bool) (front : Text) (history : List Spot)
    (spot : Spot) (rest : List Spot) (after : Bool) : Bool :=
  isSingle (history.head?.map Spot.char)
    ⟨spacedOnce set front history spot rest after, spot.char⟩
    (regap set ((spot :: history).map Spot.char ++ front) (colons (some spot.char)
      (isSingle (history.head?.map Spot.char) spot rest.head?) rest)).head?

theorem spacedOnce_of_colons (hspot : spot.char = ':')
    (hprevious : history.head?.map Spot.char = some ':') :
    spacedOnce set front history spot rest after =
      if isSingle (history.head?.map Spot.char) spot rest.head? then after
      else after || spot.gap := by
  cases history with
  | nil => cases hprevious
  | cons previous older =>
      have hchar : previous.char = ':' := by simpa using hprevious
      rw [spacedOnce, hspot, List.map_cons, hchar, List.cons_append, hcolon]

variable (h : Steady history (spot :: rest) after again)

include h

theorem Steady.single_of_again (hagain : isSingleAgain set front history spot rest after = true) :
    isSingle (history.head?.map Spot.char) spot rest.head? = true := by
  cases hother : isSingle (history.head?.map Spot.char) spot rest.head? with
  | true => rfl
  | false =>
      obtain ⟨hchar, hapart, hnextAgain⟩ := isSingle_iff.mp hagain
      have hspot : spot.char = ':' := hchar
      have hnext : rest.head? ≠ some ⟨false, ':'⟩ := by
        intro hnext
        refine hnextAgain ?_
        rw [hother, hspot, List.map_cons, hspot]
        exact head?_of_touching hcolon _ hnext
      obtain ⟨hgap, hprevious⟩ := touches_of_not_single hother hspot hnext
      have hspaced : spacedOnce set front history spot rest after = true :=
        hapart.resolve_right (by simpa using hprevious)
      rw [spacedOnce_of_colons hcolon hspot hprevious, hother, hgap] at hspaced
      -- The colon before was single, though it touched this one.
      have hafter : after = true := by simpa using hspaced
      exact absurd (by rw [List.head?_cons, ← hgap, ← hspot]) (h.single hafter).2

theorem Steady.lost_single
    (hsingle : isSingle (history.head?.map Spot.char) spot rest.head? = true)
    (hlost : isSingleAgain set front history spot rest after = false) :
    after = false ∧ rest.head?.map Spot.char ≠ some ':' := by
  obtain ⟨hspot, hapart, hnext⟩ := isSingle_iff.mp hsingle
  have hnextAgain : (regap set ((spot :: history).map Spot.char ++ front) (colons (some spot.char)
      (isSingle (history.head?.map Spot.char) spot rest.head?) rest)).head? ≠
      some ⟨false, ':'⟩ := by
    rw [hsingle, hspot, List.map_cons, hspot]
    exact head?_ne_of_single hcolon _
  obtain ⟨hspaced, hprevious⟩ := touches_of_not_single hlost hspot hnextAgain
  have hafter : after = false := by
    rwa [spacedOnce_of_colons hcolon hspot hprevious, hsingle, if_pos rfl] at hspaced
  refine ⟨hafter, fun hcolon' => h.free ?_⟩
  have hgap : spot.gap = true := hapart.resolve_right (by simpa using hprevious)
  obtain ⟨gap, char⟩ := spot
  obtain ⟨rfl, rfl⟩ : char = ':' ∧ gap = true := ⟨hspot, hgap⟩
  obtain ⟨gap, older, rfl⟩ := h.touching hprevious hafter rfl
  cases rest with
  | nil => cases hcolon'
  | cons next others =>
      obtain ⟨gap', char'⟩ := next
      obtain rfl : char' = ':' := by simpa using hcolon'
      obtain rfl : gap' = true := by
        cases gap' with
        | true => rfl
        | false => exact absurd rfl hnext
      exact ⟨gap, older.reverse, others, by simp⟩

theorem Steady.step : Steady (spot :: history) rest
    (isSingle (history.head?.map Spot.char) spot rest.head?)
    (isSingleAgain set front history spot rest after) where
  kept := h.single_of_again hcolon
  lost := fun hsingle hlost => (h.lost_single hcolon hsingle hlost).2
  single := by
    intro hsingle
    obtain ⟨hspot, _, hnext⟩ := isSingle_iff.mp hsingle
    exact ⟨by simpa using hspot, hnext⟩
  touching := by
    intro hspot hother hnext
    have hchar : spot.char = ':' := by simpa using hspot
    have hnext' : rest.head? ≠ some ⟨false, ':'⟩ := by
      rw [hnext]
      decide
    obtain ⟨hgap, hprevious⟩ := touches_of_not_single hother hchar hnext'
    cases history with
    | nil => cases hprevious
    | cons previous older =>
        have hcolon' : previous.char = ':' := by simpa using hprevious
        have hsame : spot = ⟨false, ':'⟩ := by rw [← hgap, ← hchar]
        exact ⟨previous.gap, older, by rw [hsame, ← hcolon']⟩
  free := by simpa using h.free

include hsets

theorem Steady.spaced_again :
    set (history.map Spot.char ++ front) spot.char
        (if isSingleAgain set front history spot rest after then again
          else again || spacedOnce set front history spot rest after) =
      spacedOnce set front history spot rest after := by
  rcases hsets (history.map Spot.char ++ front) spot.char with hkeep | ⟨value, hvalue⟩
  · have honce : spacedOnce set front history spot rest after =
        if isSingle (history.head?.map Spot.char) spot rest.head? then after
        else after || spot.gap := hkeep _
    rw [hkeep]
    cases hagain : isSingleAgain set front history spot rest after with
    | true =>
        have hsingle := h.single_of_again hcolon hagain
        rw [honce, hsingle, if_pos rfl, if_pos rfl]
        cases hafter : after with
        | false =>
            rw [Bool.eq_false_iff]
            intro hkept
            rw [h.kept hkept] at hafter
            cases hafter
        | true =>
            cases hkept : again with
            | true => rfl
            | false =>
                exact absurd (by simpa using (isSingle_iff.mp hsingle).1) (h.lost hafter hkept)
    | false =>
        have hkept : again = true → spacedOnce set front history spot rest after = true := by
          intro hkept
          rw [honce]
          cases hsingle : isSingle (history.head?.map Spot.char) spot rest.head? with
          | true => exact h.kept hkept
          | false => simp [h.kept hkept]
        rw [if_neg Bool.false_ne_true]
        cases hagain' : again with
        | false => rfl
        | true => rw [hkept hagain']; rfl
  · rw [hvalue, spacedOnce, hvalue]

omit h in
/-- Spaced twice, colons stand as they did when spaced once. -/
theorem regap_colons_again {list : List Spot} (h : Steady history list after again) :
    regap set (history.map Spot.char ++ front) (colons (history.head?.map Spot.char) again
        (regap set (history.map Spot.char ++ front)
          (colons (history.head?.map Spot.char) after list))) =
      regap set (history.map Spot.char ++ front)
        (colons (history.head?.map Spot.char) after list) := by
  induction list generalizing history after again with
  | nil => rfl
  | cons spot rest ih =>
      have hlater := @ih _ _ (isSingleAgain set front history spot rest after) (h.step hcolon)
      have hgap := @Steady.spaced_again set hsets hcolon history rest spot after again front h
      rw [colons_cons, regap, colons_cons, regap, List.cons.injEq, Spot.mk.injEq]
      exact ⟨⟨hgap, rfl⟩, hlater⟩

end

end

/-! ### CSS -/

theorem splitAtLastBrace?_eq_some {left right : Text} (hright : '{' ∉ right) :
    splitAtLastBrace? (left ++ '{' :: right) = some (left ++ ['{'], right) := by
  have htail : ((left ++ '{' :: right).reverse.takeWhile (· ≠ '{')).reverse = right := by
    rw [List.reverse_append, List.reverse_cons, List.append_assoc, List.singleton_append,
      List.takeWhile_append_of_pos]
    · simp
    · intro c hc
      rw [List.mem_reverse] at hc
      rw [decide_eq_true_iff]
      rintro rfl
      exact hright hc
  have hwhole : left ++ '{' :: right = (left ++ ['{']) ++ right := by simp
  rw [splitAtLastBrace?, htail, hwhole, @List.length_append _ (left ++ ['{']),
    Nat.add_sub_cancel, List.take_left, if_pos (by simp)]

theorem splitAtLastBrace?_eq_none {t : Text} (hbrace : '{' ∉ t) : splitAtLastBrace? t = none := by
  have htail : t.reverse.takeWhile (· ≠ '{') = t.reverse := by
    have hall := @List.takeWhile_append_of_pos _ (· ≠ '{') t.reverse [] (by
      intro c hc
      rw [List.mem_reverse] at hc
      rw [decide_eq_true_iff]
      rintro rfl
      exact hbrace hc)
    simpa using hall
  rw [splitAtLastBrace?, htail, if_neg (by simp)]

/-- How many characters of a line belong to selectors, whose colons are left alone. -/
def selectorLength (chars : Text) : Nat :=
  if chars.startsWith ['@'] then 0
  else
    match splitAtLastBrace? chars with
    | some (selector, _) => selector.length
    | none => if chars.endsWith [','] then chars.length else 0

/-- What the rule for the colons of declarations does to spots. -/
def declare (list : List Spot) : List Spot :=
  let count := selectorLength (list.map Spot.char)
  list.take count ++ colons none false (list.drop count)

theorem spots_declarationColon (t : Text) :
    spots (declarationColon.respace t) = colons none false (spots t) := by
  apply spots_respace_around (by decide)
  intro b hb
  rw [beq_eq_false_iff_ne]
  rintro rfl
  revert hb
  decide

theorem exists_last_brace {t : Text} (hbrace : '{' ∈ t) :
    ∃ left right, t = left ++ '{' :: right ∧ '{' ∉ right := by
  obtain ⟨right, left, hsplit, hright⟩ := List.eq_append_cons_of_mem (List.mem_reverse.mpr hbrace)
  refine ⟨left.reverse, right.reverse, ?_, by simpa using hright⟩
  rw [← List.reverse_reverse t, hsplit]
  simp

theorem spots_declarationColons {t : Text} (h : Trimmed t) :
    spots (declarationColons t) = declare (spots t) := by
  have hchars : (spots t).map Spot.char = Text.solid t := map_char_spotsFrom false t
  rw [declare, hchars, selectorLength, Text.startsWith_solid h.head, Text.endsWith_solid h.last,
    declarationColons]
  by_cases hrule : t.startsWith ['@'] = true
  · rw [if_pos hrule, if_pos hrule, spots_declarationColon]
    rfl
  · rw [if_neg hrule, if_neg hrule]
    by_cases hbrace : '{' ∈ t
    · obtain ⟨left, right, rfl, hright⟩ := exists_last_brace hbrace
      have hsolid : isBlank '{' = false := by decide
      have hsplit : Text.solid (left ++ '{' :: right) =
          Text.solid left ++ '{' :: Text.solid right := by
        simp [Text.solid, hsolid]
      have hright' : '{' ∉ Text.solid right := fun hmem => hright (List.mem_filter.mp hmem).1
      have hlength : (Text.solid left ++ ['{']).length = (spots (left ++ ['{'])).length := by
        rw [← List.length_map Spot.char, spots, map_char_spotsFrom]
        simp [Text.solid, hsolid]
      rw [splitAtLastBrace?_eq_some hright, hsplit, splitAtLastBrace?_eq_some hright']
      have hspots : ∀ rest, spots (left ++ '{' :: rest) = spots (left ++ ['{']) ++ spots rest :=
        spotsFrom_append_solid hsolid false left
      dsimp only
      rw [List.append_assoc, List.singleton_append, hspots (declarationColon.respace right),
        hspots right, hlength, List.take_left, List.drop_left, spots_declarationColon]
    · have hbrace' : '{' ∉ Text.solid t := fun hmem => hbrace (List.mem_filter.mp hmem).1
      rw [splitAtLastBrace?_eq_none hbrace, splitAtLastBrace?_eq_none hbrace']
      dsimp only
      split
      · have hlength : (Text.solid t).length = (spots t).length := by
          rw [← hchars, List.length_map]
        rw [hlength, List.take_length, List.drop_length]
        simp [colons, respot]
      · rw [spots_declarationColon]
        rfl

/-- Gaps next to the signs of CSS, colons apart. -/
def cssGap (before : Text) (c : Char) (gap : Bool) : Bool :=
  closeGap before c (signGap false true ',' before c (signGap false false '}' before c
    (signGap true false '{' before c (signGap false true ';' before c gap))))

theorem cssGap_sets : Sets cssGap :=
  closeGap_sets.comp ((signGap_sets false true ',').comp ((signGap_sets false false '}').comp
    ((signGap_sets true false '{').comp (signGap_sets false true ';'))))

theorem applyAll_cssRules {t : Text} (h : Trimmed t) :
    applyAll cssRules t = render (regap cssGap [] (declare (spots t))) := by
  have hsemicolon : ∀ t, spots (Pattern.respace [.tight, .exactly ";", .spaced] t) =
      regap (signGap false true ';') [] (spots t) := spots_respace_sign (by decide) false true
  have hopen : ∀ t, spots (Pattern.respace [.spaced, .exactly "\x7b", .tight] t) =
      regap (signGap true false '{') [] (spots t) := spots_respace_sign (by decide) true false
  have hclose : ∀ t, spots (Pattern.respace [.tight, .exactly "\x7d", .tight] t) =
      regap (signGap false false '}') [] (spots t) := spots_respace_sign (by decide) false false
  have hcomma : ∀ t, spots (Pattern.respace [.tight, .exactly ",", .spaced] t) =
      regap (signGap false true ',') [] (spots t) := spots_respace_sign (by decide) false true
  simp only [applyAll, cssRules, List.foldl_cons, List.foldl_nil, Rule.apply, Rule.pattern,
    commaRule, collapseRule]
  rw [collapse_eq_render, hcomma, hclose, hopen, hsemicolon, spots_declarationColons h,
    close_eq_regap, regap_regap, regap_regap, regap_regap, regap_regap]
  rfl

theorem map_char_colons (previous : Option Char) (after : Bool) (list : List Spot) :
    (colons previous after list).map Spot.char = list.map Spot.char := by
  induction list generalizing previous after with
  | nil => rfl
  | cons spot rest ih => rw [colons_cons, List.map_cons, List.map_cons, ih]

theorem map_char_declare (list : List Spot) :
    (declare list).map Spot.char = list.map Spot.char := by
  rw [declare, List.map_append, map_char_colons, ← List.map_append, List.take_append_drop]

theorem selectorLength_le (chars : Text) : selectorLength chars ≤ chars.length := by
  rw [selectorLength]
  split
  · exact Nat.zero_le _
  · split
    next selector declarations hsplit =>
        rw [← splitAtLastBrace?_append hsplit, List.length_append]
        exact Nat.le_add_right _ _
    next => split <;> omega

theorem steady_nil {list : List Spot} (hfree : ¬Train list) : Steady [] list false false where
  kept := id
  lost := by simp
  single := by simp
  touching := by simp
  free := hfree

/-- Declared again, the spots stand as they did. -/
theorem regap_declare_again {list : List Spot} (hfree : ¬Train list) :
    regap cssGap [] (declare (regap cssGap [] (declare list))) =
      regap cssGap [] (declare list) := by
  generalize hcount : selectorLength (list.map Spot.char) = count
  have hlength : (regap cssGap [] (list.take count)).length = count := by
    have hle := selectorLength_le (list.map Spot.char)
    rw [← List.length_map Spot.char, map_char_regap, List.length_map, List.length_take]
    rw [hcount, List.length_map] at hle
    exact Nat.min_eq_left hle
  have hfree' : ¬Train (list.drop count) := fun ⟨gap, htrain⟩ =>
    hfree ⟨gap, htrain.trans (List.drop_suffix count list).isInfix⟩
  have hagain := @regap_colons_again cssGap cssGap_sets (fun _ _ => rfl) [] false false
    ((list.take count).map Spot.char).reverse _ (steady_nil hfree')
  have honce : regap cssGap [] (declare list) = regap cssGap [] (list.take count) ++
      regap cssGap ((list.take count).map Spot.char).reverse
        (colons none false (list.drop count)) := by
    rw [declare, hcount, regap_append, List.append_nil]
  rw [declare, map_char_regap, map_char_declare, hcount, honce, List.take_left' hlength,
    List.drop_left' hlength, regap_append, regap_of_settled cssGap_sets.settled, map_char_regap,
    List.append_nil]
  exact congrArg _ hagain

/-- The rules for CSS have nothing to do on a text they have been applied to, if no train of colons
was in it. -/
theorem applyAll_cssRules_settled {t : Text} (h : Trimmed t) (hfree : ¬Train (spots t)) :
    applyAll cssRules (applyAll cssRules t) = applyAll cssRules t := by
  have hspots : spots (applyAll cssRules t) = regap cssGap [] (declare (spots t)) := by
    rw [applyAll_cssRules h]
    refine spotsFrom_render fun spot hspot => isBlank_of_mem_regap (fun other hother => ?_) hspot
    have hchar : other.char ∈ (spots t).map Spot.char := by
      rw [← map_char_declare]
      exact List.mem_map_of_mem hother
    obtain ⟨old, hold, hsame⟩ := List.mem_map.mp hchar
    rw [← hsame]
    exact isBlank_of_mem_spotsFrom hold
  have htrimmed : Trimmed (applyAll cssRules t) := trimmed_rules .css none t
  rw [applyAll_cssRules htrimmed, hspots, regap_declare_again hfree,
    applyAll_cssRules h]

end SourceLayout.Spacing
