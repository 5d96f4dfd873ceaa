import SourceLayout.Proofs.Trimmed

/-!
# Spots

How wide a gap is makes no difference once blanks are collapsed. So a text is a list of spots, its
characters that are no blanks, each with the gap before it or without one. A rule that respaces a
sign sets the gaps around it; what it does to a text is told by what it does to the spots.
-/

namespace SourceLayout.Spacing

open Text (Trimmed)

/-- A character and whether blanks stand before it. -/
structure Spot where
  gap : Bool
  char : Char
  deriving DecidableEq, Repr

/-- The spots of a text that comes after a gap or not. -/
def spotsFrom (gap : Bool) : Text → List Spot
  | [] => []
  | c :: cs => if isBlank c then spotsFrom true cs else ⟨gap, c⟩ :: spotsFrom false cs

def spots (t : Text) : List Spot :=
  spotsFrom false t

/-- Spots with one space for every gap. -/
def render : List Spot → Text
  | [] => []
  | spot :: rest => (if spot.gap then [' ', spot.char] else [spot.char]) ++ render rest

/-- Spots without a gap before the first one. -/
def close : List Spot → List Spot
  | [] => []
  | spot :: rest => { spot with gap := false } :: rest

theorem spotsFrom_blank {c : Char} (hc : isBlank c = true) (gap : Bool) (cs : Text) :
    spotsFrom gap (c :: cs) = spotsFrom true cs := by
  rw [spotsFrom, if_pos hc]

theorem spotsFrom_solid {c : Char} (hc : isBlank c = false) (gap : Bool) (cs : Text) :
    spotsFrom gap (c :: cs) = ⟨gap, c⟩ :: spotsFrom false cs := by
  rw [spotsFrom, hc, if_neg Bool.false_ne_true]

theorem spotsFrom_gap {blanks : Text} (hblanks : blanks.all isBlank = true) (gap : Bool)
    (t : Text) :
    spotsFrom gap (blanks ++ t) = spotsFrom (gap || !blanks.isEmpty) t := by
  induction blanks generalizing gap with
  | nil => simp
  | cons b bs ih =>
      rw [List.all_cons, Bool.and_eq_true] at hblanks
      rw [List.cons_append, spotsFrom_blank hblanks.1, ih hblanks.2]
      simp

theorem spotsFrom_blanks {blanks : Text} (hblanks : blanks.all isBlank = true) (gap : Bool) :
    spotsFrom gap blanks = [] := by
  have hspots := spotsFrom_gap hblanks gap []
  rwa [List.append_nil] at hspots

theorem spotsFrom_append_solid {c : Char} (hc : isBlank c = false) (gap : Bool)
    (left right : Text) :
    spotsFrom gap (left ++ c :: right) = spotsFrom gap (left ++ [c]) ++ spots right := by
  induction left generalizing gap with
  | nil =>
      rw [List.nil_append, List.nil_append, spotsFrom_solid hc, spotsFrom_solid hc]
      rfl
  | cons d ds ih =>
      cases hd : isBlank d with
      | true => rw [List.cons_append, List.cons_append, spotsFrom_blank hd, spotsFrom_blank hd, ih]
      | false =>
          rw [List.cons_append, List.cons_append, spotsFrom_solid hd, spotsFrom_solid hd, ih]
          rfl

theorem map_char_spotsFrom (gap : Bool) (t : Text) :
    (spotsFrom gap t).map Spot.char = Text.solid t := by
  induction t generalizing gap with
  | nil => rfl
  | cons c cs ih =>
      cases hc : isBlank c with
      | true =>
          rw [spotsFrom_blank hc, ih]
          simp [Text.solid, hc]
      | false =>
          rw [spotsFrom_solid hc, List.map_cons, ih]
          simp [Text.solid, hc]

theorem isBlank_of_mem_spotsFrom {gap : Bool} {t : Text} {spot : Spot}
    (hspot : spot ∈ spotsFrom gap t) : isBlank spot.char = false := by
  have hmem : spot.char ∈ Text.solid t := by
    rw [← map_char_spotsFrom gap t]
    exact List.mem_map_of_mem hspot
  simpa [Text.solid] using (List.mem_filter.mp hmem).2

/-! ### Collapsing -/

theorem close_spotsFrom (gap : Bool) (t : Text) : close (spotsFrom gap t) = close (spots t) := by
  cases t with
  | nil => rfl
  | cons c cs =>
      cases hc : isBlank c with
      | true => rw [spots, spotsFrom_blank hc, spotsFrom_blank hc]
      | false => rw [spots, spotsFrom_solid hc, spotsFrom_solid hc, close, close]

theorem chunks_blank {c : Char} (hc : isBlank c = true) (cs : Text) :
    Text.chunks (c :: cs) = Text.chunks cs := by
  simp [Text.chunks, Text.cutAt, hc]

theorem chunks_solid {c : Char} (hc : isBlank c = false) (cs : Text) :
    Text.chunks (c :: cs) =
      if headIs (!isBlank ·) cs then Text.consFirst c (Text.chunks cs)
      else [c] :: Text.chunks cs := by
  cases cs with
  | nil => simp [Text.chunks, Text.cutAt, hc]
  | cons d ds =>
      cases hd : isBlank d with
      | true => simp [Text.chunks, Text.cutAt, hc, hd]
      | false =>
          obtain ⟨first, rest, hcut⟩ := List.exists_cons_of_ne_nil (Text.cutAt_ne_nil isBlank ds)
          simp [Text.chunks, Text.cutAt, hc, hd, hcut, Text.consFirst]

theorem gap_of_spotsFrom_true {t : Text} {spot : Spot} {rest : List Spot}
    (hspots : spotsFrom true t = spot :: rest) : spot.gap = true := by
  induction t with
  | nil => simp [spotsFrom] at hspots
  | cons c cs ih =>
      cases hc : isBlank c with
      | true =>
          rw [spotsFrom_blank hc] at hspots
          exact ih hspots
      | false =>
          rw [spotsFrom_solid hc, List.cons.injEq] at hspots
          rw [← hspots.1]

/-- A text that starts with a blank, if with anything. -/
theorem spots_of_headIs {t : Text} (hhead : headIs (!isBlank ·) t = false) :
    spots t = spotsFrom true t := by
  cases t with
  | nil => rfl
  | cons c cs =>
      have hc : isBlank c = true := by simpa using hhead
      rw [spots, spotsFrom_blank hc, spotsFrom_blank hc]

theorem close_spots {t : Text} (hhead : headIs isBlank t = false) : close (spots t) = spots t := by
  cases t with
  | nil => rfl
  | cons c cs =>
      have hc : isBlank c = false := hhead
      rw [spots, spotsFrom_solid hc, close]

/-- Collapsed, a text is its spots with one space for every gap. -/
theorem collapse_eq_render (t : Text) : t.collapse = render (close (spots t)) := by
  induction t with
  | nil => rfl
  | cons c cs ih =>
      cases hc : isBlank c with
      | true =>
          rw [spots, spotsFrom_blank hc, close_spotsFrom, ← ih, Text.collapse, Text.collapse,
            chunks_blank hc]
      | false =>
          rw [spots, spotsFrom_solid hc, close, render, if_neg Bool.false_ne_true,
            List.singleton_append, Text.collapse, chunks_solid hc]
          rw [Text.collapse] at ih
          by_cases hhead : headIs (!isBlank ·) cs = true
          · have hsolid : headIs isBlank cs = false := by
              cases cs with
              | nil => rfl
              | cons d ds => simpa using hhead
            rw [close_spots hsolid, spots] at ih
            rw [if_pos hhead, ← ih]
            cases Text.chunks cs with
            | nil => simp [Text.consFirst, List.intercalate]
            | cons first rest => cases rest <;> simp [Text.consFirst, List.intercalate]
          · rw [if_neg hhead]
            rw [Bool.not_eq_true] at hhead
            rw [spots_of_headIs hhead] at ih
            rw [← spots, spots_of_headIs hhead]
            cases hspots : spotsFrom true cs with
            | nil =>
                rw [hspots] at ih
                have hnil : Text.chunks cs = [] := by
                  apply Decidable.byContradiction
                  intro hne
                  exact (headIs_reverse_intercalate fun _ hchunk =>
                    (of_mem_chunks hchunk).2).2 hne ih
                rw [hnil]
                rfl
            | cons spot rest =>
                rw [hspots, close, render, if_neg Bool.false_ne_true] at ih
                rw [render, gap_of_spotsFrom_true hspots, if_pos rfl]
                cases hchunks : Text.chunks cs with
                | nil =>
                    rw [hchunks] at ih
                    simp [List.intercalate] at ih
                | cons first others =>
                    rw [hchunks] at ih
                    rw [intercalate_space_cons, ih]
                    rfl

theorem spotsFrom_render {list : List Spot} (hsolid : ∀ spot ∈ list, isBlank spot.char = false) :
    spots (render list) = list := by
  induction list with
  | nil => rfl
  | cons spot rest ih =>
      obtain ⟨hspot, hrest⟩ := List.forall_mem_cons.mp hsolid
      have hlater : spotsFrom false (render rest) = rest := ih hrest
      obtain ⟨gap, char⟩ := spot
      cases gap with
      | false =>
          rw [render, if_neg Bool.false_ne_true, List.singleton_append, spots,
            spotsFrom_solid hspot, hlater]
      | true =>
          have hspace : isBlank ' ' = true := by decide
          rw [render, if_pos rfl, List.cons_append, List.singleton_append, spots,
            spotsFrom_blank hspace, spotsFrom_solid hspot, hlater]

/-! ### Signs -/

/-- A text is blanks and a text that starts with none. -/
theorem exists_blanks (t : Text) :
    ∃ blanks rest, t = blanks ++ rest ∧ blanks.all isBlank = true ∧ headIs isBlank rest = false :=
  ⟨t.takeWhile isBlank, t.trimLeft, List.takeWhile_append_dropWhile.symm, List.all_takeWhile,
    Text.headIs_trimLeft t⟩

/-- A sign with the gaps around it set, unless characters of a class stand next to it. -/
def around (left right : Bool) (sign : Char) (avoid : Char → Bool) : Pattern :=
  [.gap 0 left, .notAfter avoid, .token [[sign]], .notAhead avoid, .gap 0 right]

/-- Whether a spot has the sign and no character of the class next to it. -/
def isPivot (sign : Char) (avoid : Char → Bool) (previous : Option Char) (spot : Spot)
    (next : Option Spot) : Bool :=
  spot.char == sign && (spot.gap || !previous.any avoid) &&
    !next.any fun spot => !spot.gap && avoid spot.char

/-- The spots with the gaps around every pivot set. A gap between two pivots is set from both sides;
`after` tells whether the spot before was one. -/
def respot (left right : Bool) (sign : Char) (avoid : Char → Bool) (previous : Option Char)
    (after : Bool) : List Spot → List Spot
  | [] => []
  | spot :: rest =>
      let pivot := isPivot sign avoid previous spot rest.head?
      let gap := if pivot then left || (after && right) else if after then right else spot.gap
      ⟨gap, spot.char⟩ :: respot left right sign avoid (some spot.char) pivot rest

/-- One space or none. -/
def space (spaced : Bool) : Text :=
  if spaced then [' '] else []

theorem space_all_isBlank (spaced : Bool) : (space spaced).all isBlank = true := by
  cases spaced <;> decide

theorem takeWhile_blanks {blanks rest : Text} (hblanks : blanks.all isBlank = true)
    (hrest : headIs isBlank rest = false) : (blanks ++ rest).takeWhile isBlank = blanks := by
  rw [List.takeWhile_append_of_pos (List.all_eq_true.mp hblanks)]
  cases rest with
  | nil => simp
  | cons c cs =>
      have hc : isBlank c = false := hrest
      simp [hc]

section

variable {left right : Bool} {sign : Char} {avoid : Char → Bool}

theorem match?_around {before blanks rest : Text} {c : Char} (hblanks : blanks.all isBlank = true)
    (hc : isBlank c = false) :
    Pattern.match? before (blanks ++ c :: rest) (around left right sign avoid) =
      if c = sign ∧ headIs avoid (blanks.reverse ++ before) = false ∧ headIs avoid rest = false then
        some ⟨blanks ++ c :: rest.takeWhile isBlank, space left ++ c :: space right⟩
      else none := by
  have htake : (blanks ++ c :: rest).takeWhile isBlank = blanks := takeWhile_blanks hblanks hc
  by_cases hsign : c = sign
  · subst hsign
    cases hbefore : headIs avoid (blanks.reverse ++ before) <;> cases hafter : headIs avoid rest <;>
      simp [around, Pattern.match?, Part.match?, htake, Part.notAfter, Part.notAhead, hbefore,
        hafter, space]
  · cases hbefore : headIs avoid (blanks.reverse ++ before) <;>
      simp [around, Pattern.match?, Part.match?, htake, Part.notAfter, hbefore, hsign,
        Ne.symm hsign]

theorem headIs_avoid_eq {rest : Text} (havoid : ∀ b, isBlank b = true → avoid b = false) :
    headIs avoid rest = (spots rest).head?.any fun spot => !spot.gap && avoid spot.char := by
  cases rest with
  | nil => rfl
  | cons c cs =>
      cases hc : isBlank c with
      | false => simp [spots, spotsFrom_solid hc]
      | true =>
          rw [headIs_cons, havoid c hc, spots, spotsFrom_blank hc]
          cases hspots : spotsFrom true cs with
          | nil => rfl
          | cons spot rest => simp [gap_of_spotsFrom_true hspots]

theorem headIs_avoid_blanks (havoid : ∀ b, isBlank b = true → avoid b = false)
    {before blanks : Text} {gap near : Bool} (hbefore : headIs avoid before = (!gap && near))
    (hblanks : blanks.all isBlank = true) :
    headIs avoid (blanks.reverse ++ before) = (!(gap || !blanks.isEmpty) && near) := by
  cases hreverse : blanks.reverse with
  | nil =>
      obtain rfl := List.reverse_eq_nil_iff.mp hreverse
      simpa using hbefore
  | cons b bs =>
      have hb : isBlank b = true := by
        refine List.all_eq_true.mp hblanks b (List.mem_reverse.mp ?_)
        rw [hreverse]
        exact List.mem_cons_self
      have hne : blanks ≠ [] := by
        rintro rfl
        cases hreverse
      simp [havoid b hb, hne]

/-- Where a sign is respaced. -/
theorem respaceFrom_pivot {before blanks blanks' rest : Text} (hblanks : blanks.all isBlank = true)
    (hblanks' : blanks'.all isBlank = true) (hrest : headIs isBlank rest = false)
    (hsign : isBlank sign = false) (hbefore : headIs avoid (blanks.reverse ++ before) = false)
    (hafter : headIs avoid (blanks' ++ rest) = false) :
    (around left right sign avoid).respaceFrom before 0 (blanks ++ sign :: (blanks' ++ rest)) =
      space left ++ sign :: (space right ++ (around left right sign avoid).respaceFrom
        ((blanks ++ sign :: blanks').reverse ++ before) 0 rest) := by
  have hmatch := @match?_around left right sign avoid before blanks (blanks' ++ rest) sign hblanks
    hsign
  rw [if_pos ⟨rfl, hbefore, hafter⟩, takeWhile_blanks hblanks' hrest] at hmatch
  have hsplit : blanks ++ sign :: (blanks' ++ rest) = (blanks ++ sign :: blanks') ++ rest := by simp
  rw [hsplit] at hmatch ⊢
  rw [Pattern.respaceFrom_match (by simp) hmatch]
  simp

/-- Where no sign is respaced. -/
theorem respaceFrom_other {before blanks rest : Text} {c : Char}
    (hblanks : blanks.all isBlank = true)
    (hc : isBlank c = false)
    (hother : ¬(c = sign ∧ headIs avoid (blanks.reverse ++ before) = false ∧
      headIs avoid rest = false)) :
    (around left right sign avoid).respaceFrom before 0 (blanks ++ c :: rest) =
      blanks ++ c :: (around left right sign avoid).respaceFrom (c :: (blanks.reverse ++ before)) 0
        rest := by
  have hpass := @Pattern.respaceFrom_pass (around left right sign avoid) before (blanks ++ [c])
    rest (by
    intro i hi
    rw [List.length_append, List.length_singleton] at hi
    rw [List.take_append_of_le_length (by omega), List.drop_append_of_le_length (by omega),
      List.append_assoc, List.singleton_append, match?_around _ hc, if_neg]
    · rintro ⟨hsign, hbefore, hafter⟩
      refine hother ⟨hsign, ?_, hafter⟩
      rwa [← List.append_assoc, ← List.reverse_append, List.take_append_drop] at hbefore
    · exact List.all_eq_true.mpr fun b hb =>
        List.all_eq_true.mp hblanks b (List.mem_of_mem_drop hb))
  simpa using hpass

theorem respaceFrom_blanks (hsign : isBlank sign = false) (before : Text) {blanks : Text}
    (hblanks : blanks.all isBlank = true) :
    (around left right sign avoid).respaceFrom before 0 blanks = blanks := by
  have hmem : Part.token [[sign]] ∈ around left right sign avoid := by simp [around]
  refine Pattern.respaceFrom_eq_self hmem ?_ before
  intro choice hchoice hinside
  obtain rfl := List.mem_singleton.mp hchoice
  have hmem := List.all_eq_true.mp hblanks sign (hinside.subset List.mem_cons_self)
  rw [hsign] at hmem
  cases hmem

/-- What respacing a sign does to the spots. The text before ends with blanks, if `gap`, or else
with the character of the spot before. -/
theorem spotsFrom_around (hsign : isBlank sign = false)
    (havoid : ∀ b, isBlank b = true → avoid b = false) {before t : Text} {previous : Option Char}
    {after gap : Bool} (hbefore : headIs avoid before = (!gap && previous.any avoid))
    (hafter : after = true → headIs isBlank t = false) (hgap : after = false → gap = false) :
    spotsFrom (after && right) ((around left right sign avoid).respaceFrom before 0 t) =
      respot left right sign avoid previous after (spotsFrom gap t) := by
  induction hlength : t.length using Nat.strongRecOn generalizing before t previous after gap with
  | ind length ih =>
      obtain ⟨blanks, rest, rfl, hblanks, hrest⟩ := exists_blanks t
      cases rest with
      | nil =>
          rw [List.append_nil, respaceFrom_blanks hsign before hblanks, spotsFrom_blanks hblanks,
            spotsFrom_blanks hblanks, respot]
      | cons c cs =>
          have hc : isBlank c = false := hrest
          have hlook := headIs_avoid_blanks havoid hbefore hblanks
          have hpivot : isPivot sign avoid previous ⟨gap || !blanks.isEmpty, c⟩ (spots cs).head? =
              decide (c = sign ∧ headIs avoid (blanks.reverse ++ before) = false ∧
                headIs avoid cs = false) := by
            rw [isPivot, hlook, headIs_avoid_eq havoid, Bool.eq_iff_iff]
            cases gap || !blanks.isEmpty <;> cases previous.any avoid <;> simp
          rw [spotsFrom_gap hblanks, spotsFrom_solid hc, respot, ← spots, hpivot]
          by_cases hmatch : c = sign ∧ headIs avoid (blanks.reverse ++ before) = false ∧
              headIs avoid cs = false
          · obtain ⟨rfl, hnear, hnext⟩ := hmatch
            obtain ⟨blanks', rest, rfl, hblanks', hrest'⟩ := exists_blanks cs
            have hlater := @ih rest.length (by simp at hlength; omega)
              ((blanks ++ c :: blanks').reverse ++ before) rest (some c) true (!blanks'.isEmpty) (by
                have hown : headIs avoid (c :: (blanks.reverse ++ before)) =
                    (!false && (some c).any avoid) := rfl
                simpa using headIs_avoid_blanks havoid hown hblanks') (fun _ => hrest') (by simp)
              rfl
            rw [respaceFrom_pivot hblanks hblanks' hrest' hc hnear hnext,
              spotsFrom_gap (space_all_isBlank left), spotsFrom_solid hc,
              spotsFrom_gap (space_all_isBlank right), spots, spotsFrom_gap hblanks']
            have hspace : ∀ spaced, (!(space spaced).isEmpty) = spaced := by
              intro spaced
              cases spaced <;> rfl
            rw [Bool.true_and] at hlater
            simp only [hspace, Bool.false_or, hlater, decide_true, hnear, hnext, and_self, if_true,
              Bool.or_comm (after && right)]
          · have hlater := @ih cs.length (by simp at hlength; omega)
              (c :: (blanks.reverse ++ before)) cs (some c) false false rfl (by simp) (by simp) rfl
            rw [Bool.false_and] at hlater
            rw [respaceFrom_other hblanks hc hmatch, spotsFrom_gap hblanks, spotsFrom_solid hc,
              hlater, decide_eq_false hmatch, spots]
            cases after with
            | false => simp [hgap rfl]
            | true =>
                obtain rfl := Text.eq_nil_of_headIs hblanks (hafter rfl)
                simp

end

theorem spots_respace_around {left right : Bool} {sign : Char} {avoid : Char → Bool}
    (hsign : isBlank sign = false) (havoid : ∀ b, isBlank b = true → avoid b = false) (t : Text) :
    spots ((around left right sign avoid).respace t) =
      respot left right sign avoid none false (spots t) :=
  @spotsFrom_around left right sign avoid hsign havoid [] t none false false rfl (by simp) (by simp)

/-! ### Gaps that are set by the characters around them -/

/-- Sets every gap by the characters before it, nearest first, and the character after it. -/
def regap (set : Text → Char → Bool → Bool) (before : Text) : List Spot → List Spot
  | [] => []
  | spot :: rest =>
      ⟨set before spot.char spot.gap, spot.char⟩ :: regap set (spot.char :: before) rest

theorem regap_regap (set set' : Text → Char → Bool → Bool) (before : Text) (list : List Spot) :
    regap set before (regap set' before list) =
      regap (fun before c gap => set before c (set' before c gap)) before list := by
  induction list generalizing before with
  | nil => rfl
  | cons spot rest ih => rw [regap, regap, regap, ih]

theorem regap_append (set : Text → Char → Bool → Bool) (before : Text) (left right : List Spot) :
    regap set before (left ++ right) =
      regap set before left ++ regap set ((left.map Spot.char).reverse ++ before) right := by
  induction left generalizing before with
  | nil => rfl
  | cons spot rest ih =>
      rw [List.cons_append, regap, regap, ih]
      simp

@[simp]
theorem map_char_regap (set : Text → Char → Bool → Bool) (before : Text) (list : List Spot) :
    (regap set before list).map Spot.char = list.map Spot.char := by
  induction list generalizing before with
  | nil => rfl
  | cons spot rest ih => rw [regap, List.map_cons, List.map_cons, ih]

/-- No gap before the first character. -/
def closeGap (before : Text) (_ : Char) (gap : Bool) : Bool :=
  !before.isEmpty && gap

theorem close_eq_regap (list : List Spot) : close list = regap closeGap [] list := by
  have hkeep : ∀ (list : List Spot) (c : Char) (before : Text),
      regap closeGap (c :: before) list = list := by
    intro list
    induction list with
    | nil => exact fun _ _ => rfl
    | cons spot rest ih =>
        intro c before
        rw [regap, ih]
        simp [closeGap]
  cases list with
  | nil => rfl
  | cons spot rest =>
      rw [close, regap, hkeep]
      rfl

/-- The gaps on both sides of a sign. -/
def signGap (left right : Bool) (sign : Char) (before : Text) (c : Char) (gap : Bool) : Bool :=
  if c = sign then left || (headIs (· == sign) before && right)
  else if headIs (· == sign) before then right
  else gap

theorem respot_eq_regap (left right : Bool) (sign : Char) (previous : Option Char) (before : Text)
    (list : List Spot) :
    respot left right sign (fun _ => false) previous (headIs (· == sign) before) list =
      regap (signGap left right sign) before list := by
  induction list generalizing previous before with
  | nil => rfl
  | cons spot rest ih =>
      have hpivot :
          isPivot sign (fun _ => false) previous spot rest.head? = (spot.char == sign) := by
        have hprevious : previous.any (fun _ => false) = false := by cases previous <;> rfl
        have hnext : (rest.head?.any fun spot => !spot.gap && false) = false := by
          cases rest.head? <;> simp
        rw [isPivot, hprevious, hnext]
        simp
      have hlater := ih (some spot.char) (spot.char :: before)
      rw [headIs_cons] at hlater
      rw [respot, hpivot, hlater, regap, signGap]
      by_cases hsign : spot.char = sign
      · simp [hsign]
      · simp [hsign]

theorem Pattern.respaceFrom_congr {pattern pattern' : Pattern}
    (h : ∀ before rest, Pattern.match? before rest pattern = Pattern.match? before rest pattern')
    (before t : Text) : pattern.respaceFrom before 0 t = pattern'.respaceFrom before 0 t := by
  induction before, t using Pattern.respaceFrom_induct pattern with
  | done before => rfl
  | found before read written rest hne hmatch ih =>
      rw [Pattern.respaceFrom_match hne hmatch, Pattern.respaceFrom_match hne (h _ _ ▸ hmatch), ih]
  | passed before c cs hnone ih =>
      rw [Pattern.respaceFrom_passed hnone, Pattern.respaceFrom_passed (h _ _ ▸ hnone), ih]

/-- A rule that sets the gaps on both sides of a sign. -/
theorem spots_respace_sign {sign : Char} (hsign : isBlank sign = false) (left right : Bool)
    (t : Text) :
    spots (Pattern.respace [.gap 0 left, .token [[sign]], .gap 0 right] t) =
      regap (signGap left right sign) [] (spots t) := by
  have hmatch : ∀ before rest,
      Pattern.match? before rest [.gap 0 left, .token [[sign]], .gap 0 right] =
        Pattern.match? before rest (around left right sign fun _ => false) := by
    intro before rest
    have hnever : ∀ t : Text, headIs (fun _ => false) t = false := by
      intro t
      cases t <;> rfl
    simp [around, Pattern.match?, Part.match?, Part.notAfter, Part.notAhead, hnever,
      Option.bind_assoc]
  rw [Pattern.respace, Pattern.respaceFrom_congr hmatch, ← Pattern.respace,
    spots_respace_around hsign (by simp)]
  exact respot_eq_regap left right sign none [] (spots t)

/-! ### Gaps that are narrowed -/

/-- Whether a part leaves a gap where one is, and none where none is. -/
def Part.narrows : Part → Bool
  | .gap least spaced => 0 < least && spaced
  | .space => false
  | _ => true

theorem spotsFrom_append_congr {t t' : Text} (h : ∀ gap, spotsFrom gap t = spotsFrom gap t')
    (gap : Bool) (left : Text) : spotsFrom gap (left ++ t) = spotsFrom gap (left ++ t') := by
  induction left generalizing gap with
  | nil => exact h gap
  | cons c cs ih =>
      rw [List.cons_append, List.cons_append, spotsFrom, spotsFrom]
      split
      · exact ih true
      · rw [ih false]

theorem Part.Matches.spotsFrom_eq {part : Part} {before rest read written : Text}
    (hmatch : part.Matches before rest read written) (hnarrows : part.narrows = true) (gap : Bool)
    (t : Text) : spotsFrom gap (written ++ t) = spotsFrom gap (read ++ t) := by
  cases hmatch with
  | look | token | run => rfl
  | gap hblanks hleast =>
      simp only [Part.narrows, Bool.and_eq_true, decide_eq_true_eq] at hnarrows
      have hne : read.isEmpty = false :=
        List.isEmpty_eq_false_iff.mpr (List.ne_nil_of_length_pos (by omega))
      have hspace : ([' '] : Text).all isBlank = true := by decide
      rw [hnarrows.2, if_pos rfl, spotsFrom_gap hspace, spotsFrom_gap hblanks, hne]
      rfl
  | space => cases hnarrows

theorem Pattern.Matches.spotsFrom_eq {pattern : Pattern} {before rest read written : Text}
    (hmatch : pattern.Matches rest before read written)
    (hnarrows : pattern.all Part.narrows = true) (gap : Bool) (t : Text) :
    spotsFrom gap (written ++ t) = spotsFrom gap (read ++ t) := by
  induction hmatch generalizing gap with
  | nil => rfl
  | cons hfirst hothers ih =>
      rw [List.all_cons, Bool.and_eq_true] at hnarrows
      rw [List.append_assoc, List.append_assoc, hfirst.spotsFrom_eq hnarrows.1]
      exact spotsFrom_append_congr (ih hnarrows.2) gap _

theorem Pattern.spotsFrom_respaceFrom {pattern : Pattern}
    (hnarrows : pattern.all Part.narrows = true) (gap : Bool) (before t : Text) :
    spotsFrom gap (pattern.respaceFrom before 0 t) = spotsFrom gap t := by
  induction before, t using Pattern.respaceFrom_induct pattern generalizing gap with
  | done before => rfl
  | found before read written rest hne hmatch ih =>
      rw [Pattern.respaceFrom_match hne hmatch, spotsFrom_append_congr ih]
      exact (Pattern.matches_of_match? hmatch).spotsFrom_eq hnarrows gap rest
  | passed before c cs hnone ih =>
      rw [Pattern.respaceFrom_passed hnone]
      exact spotsFrom_append_congr ih gap [c]

theorem Pattern.spots_respace {pattern : Pattern} (hnarrows : pattern.all Part.narrows = true)
    (t : Text) : spots (pattern.respace t) = spots t :=
  Pattern.spotsFrom_respaceFrom hnarrows false [] t

end SourceLayout.Spacing
