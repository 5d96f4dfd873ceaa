import SourceLayout.Proofs.Literal.Expansion

/-!
# One run of a finder

A finder respects marks if it finds nothing inside one and if the spans it finds never end inside
one. A run of such a finder keeps what the masked text stands for. Since every span holds a
character that no mark has, every literal takes a character out of the text for good.
-/

namespace SourceLayout.Literal

/-- A character that stands in no mark. -/
def isForeign (c : Char) : Bool :=
  c != markOpen && c != markClose && !isDecimal c

theorem isForeign_of_mem_mark {number : Nat} {c : Char} (hc : c ∈ mark number) :
    isForeign c = false := by
  simp only [mark, List.cons_append, List.mem_cons, List.mem_append, List.not_mem_nil,
    or_false] at hc
  rcases hc with rfl | hdigit | rfl
  · simp [isForeign]
  · simp [isForeign, isDecimal_of_mem_toDigits hdigit]
  · simp [isForeign]

/-- A span with a foreign character after which no mark opens, unless nothing follows the span. -/
def Anchored (span rest : Text) : Prop :=
  ∃ (before : Text) (c : Char) (after : Text), span = before ++ c :: after ∧ isForeign c = true ∧
    (markOpen ∉ after ∨ rest = [])

structure Finder.Respects (find : Finder) : Prop where
  passes : ∀ (before : Text) (number : Nat) (rest : Text) (i : Nat), i < (mark number).length →
    find (((mark number).take i).reverse ++ before) ((mark number).drop i ++ rest) = 0
  anchors : ∀ (before : Text) (c : Char) (cs : Text) (n : Nat), find before (c :: cs) = n + 1 →
    Anchored (c :: cs.take n) (cs.drop n)

/-- A finder whose spans start with a foreign character passes over marks. -/
theorem Finder.passes_of_foreign {find : Finder}
    (hforeign : ∀ (before : Text) (c : Char) (cs : Text), isForeign c = false →
      find before (c :: cs) = 0)
    (before : Text) (number : Nat) (rest : Text) (i : Nat) (hi : i < (mark number).length) :
    find (((mark number).take i).reverse ++ before) ((mark number).drop i ++ rest) = 0 := by
  rw [List.drop_eq_getElem_cons hi, List.cons_append]
  exact hforeign _ _ _ (isForeign_of_mem_mark (List.getElem_mem hi))

theorem Anchored.cut_or_nil {span rest : Text} (h : Anchored span rest) :
    ¬Expands.BreaksOff span ∨ rest = [] := by
  obtain ⟨before, c, after, rfl, hforeign, hafter | hrest⟩ := h
  · simp only [isForeign, Bool.and_eq_true, bne_iff_ne, Bool.not_eq_true'] at hforeign
    exact .inl (Expands.not_breaksOff hforeign.1.1 hforeign.2 before hafter)
  · exact .inr hrest

/-! ### Masking from a place on -/

def Masked.prepend (front : Text) (masked : Masked) : Masked :=
  ⟨front ++ masked.text, masked.literals⟩

@[simp]
theorem Masked.prepend_text (front : Text) (masked : Masked) :
    (masked.prepend front).text = front ++ masked.text :=
  rfl

@[simp]
theorem Masked.prepend_literals (front : Text) (masked : Masked) :
    (masked.prepend front).literals = masked.literals :=
  rfl

namespace Finder

variable {find : Finder} {before : Text} {literals : List Text}

theorem maskFrom_drop (before : Text) (skip : Nat) (t : Text) (literals : List Text) :
    find.maskFrom before skip t literals =
      find.maskFrom ((t.take skip).reverse ++ before) 0 (t.drop skip) literals := by
  induction t generalizing before skip with
  | nil => simp [Finder.maskFrom]
  | cons c cs ih =>
      cases skip with
      | zero => rfl
      | succ skip => simp [Finder.maskFrom, ih]

theorem maskFrom_cons {c : Char} {cs : Text} (hfind : find before (c :: cs) = 0) :
    find.maskFrom before 0 (c :: cs) literals =
      (find.maskFrom (c :: before) 0 cs literals).prepend [c] := by
  rw [Finder.maskFrom, hfind]
  rfl

theorem maskFrom_span {c : Char} {cs : Text} {n : Nat} (hfind : find before (c :: cs) = n + 1) :
    find.maskFrom before 0 (c :: cs) literals =
      (find.maskFrom ((c :: cs.take n).reverse ++ before) 0 (cs.drop n)
        (literals ++ [c :: cs.take n])).prepend (mark literals.length) := by
  rw [Finder.maskFrom, hfind]
  simp only [maskFrom_drop (c :: before) n]
  simp [Masked.prepend]

theorem maskFrom_found {piece rest : Text} (hne : piece ≠ [])
    (hfind : find before (piece ++ rest) = piece.length) :
    find.maskFrom before 0 (piece ++ rest) literals =
      (find.maskFrom (piece.reverse ++ before) 0 rest (literals ++ [piece])).prepend
        (mark literals.length) := by
  cases piece with
  | nil => exact absurd rfl hne
  | cons c cs =>
      rw [List.cons_append, List.length_cons] at hfind
      rw [List.cons_append, maskFrom_span hfind, List.take_left, List.drop_left]

/-- A stretch in which nothing is found stays as it is. -/
theorem maskFrom_pass {stretch rest : Text}
    (hpass : ∀ i < stretch.length,
      find ((stretch.take i).reverse ++ before) (stretch.drop i ++ rest) = 0) :
    find.maskFrom before 0 (stretch ++ rest) literals =
      (find.maskFrom (stretch.reverse ++ before) 0 rest literals).prepend stretch := by
  induction stretch generalizing before with
  | nil => rfl
  | cons c cs ih =>
      have hfirst := hpass 0 (by simp)
      rw [List.cons_append, maskFrom_cons (by simpa using hfirst), ih]
      · simp [Masked.prepend]
      · intro i hi
        simpa using hpass (i + 1) (by simpa using hi)

theorem maskFrom_of_forall {stretch : Text}
    (hpass : ∀ c ∈ stretch, ∀ before rest, find before (c :: rest) = 0) (before rest : Text)
    (literals : List Text) :
    find.maskFrom before 0 (stretch ++ rest) literals =
      (find.maskFrom (stretch.reverse ++ before) 0 rest literals).prepend stretch := by
  apply maskFrom_pass
  intro i hi
  rw [List.drop_eq_getElem_cons hi, List.cons_append]
  exact hpass _ (List.getElem_mem hi) _ _

/-- A finder looks at the places of a text one after the other, and goes on after a span that it
finds. -/
@[elab_as_elim]
theorem scan_induct {motive : Text → Text → Prop} (find : Finder)
    (done : ∀ before, motive before [])
    (passed : ∀ before c cs, find before (c :: cs) = 0 → motive (c :: before) cs →
      motive before (c :: cs))
    (found : ∀ before c cs n, find before (c :: cs) = n + 1 →
      motive ((c :: cs.take n).reverse ++ before) (cs.drop n) → motive before (c :: cs))
    (before t : Text) : motive before t := by
  induction hlength : t.length using Nat.strongRecOn generalizing before t with
  | ind length ih =>
      subst hlength
      cases t with
      | nil => exact done before
      | cons c cs =>
          cases hfind : find before (c :: cs) with
          | zero => exact passed before c cs hfind (ih cs.length (by simp) (c :: before) cs rfl)
          | succ n =>
              have hshort : (cs.drop n).length < (c :: cs).length := by
                rw [List.length_drop, List.length_cons]
                omega
              exact found before c cs n hfind (ih _ hshort _ (cs.drop n) rfl)

/-- Literals are only ever added. -/
theorem exists_literals_eq_append (find : Finder) (before t : Text) (literals : List Text) :
    ∃ extra, (find.maskFrom before 0 t literals).literals = literals ++ extra := by
  induction before, t using scan_induct find generalizing literals with
  | done before => exact ⟨[], (List.append_nil literals).symm⟩
  | passed before c cs hfind ih =>
      rw [maskFrom_cons hfind]
      exact ih literals
  | found before c cs n hfind ih =>
      obtain ⟨extra, hextra⟩ := ih (literals ++ [c :: cs.take n])
      rw [maskFrom_span hfind]
      exact ⟨_, hextra.trans (List.append_assoc ..)⟩

theorem getElem?_literals (find : Finder) (before t : Text) {number : Nat} {span : Text}
    (hget : literals[number]? = some span) :
    (find.maskFrom before 0 t literals).literals[number]? = some span := by
  obtain ⟨extra, hextra⟩ := exists_literals_eq_append find before t literals
  rw [hextra, List.getElem?_append_left (List.getElem?_eq_some_iff.mp hget).1, hget]

/-- A span that is cut out is the next literal. -/
theorem getElem?_maskFrom (find : Finder) (before t span : Text) (literals : List Text) :
    (find.maskFrom before 0 t (literals ++ [span])).literals[literals.length]? = some span :=
  getElem?_literals find before t List.getElem?_concat_length

/-- What a text stands for does not depend on literals that are added. -/
theorem expands_literals (find : Finder) (before t : Text) {bound : Nat} {part o : Text}
    (h : Expands literals bound part o) :
    Expands (find.maskFrom before 0 t literals).literals bound part o := by
  obtain ⟨extra, hextra⟩ := exists_literals_eq_append find before t literals
  rw [hextra]
  exact h.extend extra

/-- A span that is found can be cut off what the text stands for. -/
theorem Respects.split_span (hrespects : find.Respects) {c : Char} {cs o : Text} {n : Nat}
    (hfind : find before (c :: cs) = n + 1) {bound : Nat}
    (h : Expands literals bound (c :: cs) o) :
    ∃ oleft oright : Text, o = oleft ++ oright ∧ Expands literals bound (c :: cs.take n) oleft ∧
      Expands literals bound (cs.drop n) oright := by
  have hwhole : Expands literals bound ((c :: cs.take n) ++ cs.drop n) o := by
    rwa [List.cons_append, List.take_append_drop]
  rcases (hrespects.anchors before c cs n hfind).cut_or_nil with hcut | hnil
  · exact hwhole.split hcut
  · rw [hnil, List.append_nil] at hwhole
    refine ⟨o, [], by simp, hwhole, ?_⟩
    rw [hnil]
    exact .nil

/-- A run keeps what the text stands for. -/
theorem Respects.maskFrom_expands (hrespects : find.Respects) {t o : Text}
    (h : Expands literals literals.length t o) (before : Text) :
    Expands (find.maskFrom before 0 t literals).literals
      (find.maskFrom before 0 t literals).literals.length
      (find.maskFrom before 0 t literals).text o := by
  -- A span that is found goes beyond the first character, so the induction is on the length.
  induction hlength : t.length using Nat.strongRecOn generalizing t o literals before with
  | ind length ih =>
      cases h with
      | nil => exact .nil
      | @char _ c t o hc hrest =>
          rw [List.length_cons] at hlength
          cases hfind : find before (c :: t) with
          | zero =>
              rw [maskFrom_cons hfind]
              exact .char hc (ih t.length (by omega) hrest (c :: before) rfl)
          | succ n =>
              obtain ⟨oleft, oright, ho, hleft, hright⟩ :=
                hrespects.split_span hfind (Expands.char hc hrest)
              rw [maskFrom_span hfind, ho]
              have hmore : literals.length ≤ (literals ++ [c :: t.take n]).length := by simp
              have hright' := (hright.extend [c :: t.take n]).mono hmore
              have hshort : (t.drop n).length < length := by
                rw [List.length_drop]
                omega
              have htail := ih _ hshort hright' ((c :: t.take n).reverse ++ before) rfl
              have hget := getElem?_maskFrom find ((c :: t.take n).reverse ++ before) (t.drop n)
                (c :: t.take n) literals
              exact .mark (List.getElem?_eq_some_iff.mp hget).1 hget
                (expands_literals find _ _ (hleft.extend [c :: t.take n])) htail
      | @mark _ number span part t o hlt hget hpart hrest =>
          have hshort : t.length < length := by
            rw [← hlength, List.length_append]
            simp [mark]
          have htail := ih _ hshort hrest ((mark number).reverse ++ before) rfl
          have hget' := getElem?_literals find ((mark number).reverse ++ before) t hget
          rw [maskFrom_pass (hrespects.passes before number t)]
          exact .mark (List.getElem?_eq_some_iff.mp hget').1 hget'
            (expands_literals find _ _ hpart) htail

/-- A run brings no character to the front but the sign of a mark. -/
theorem headIs_of_maskFrom {p : Char → Bool} (hp : p markOpen = false) {t : Text}
    (hhead : headIs p (find.maskFrom before 0 t literals).text = true) : headIs p t = true := by
  cases t with
  | nil => cases hhead
  | cons c cs =>
      cases hfind : find before (c :: cs) with
      | zero => rwa [maskFrom_cons hfind] at hhead
      | succ n =>
          rw [maskFrom_span hfind, Masked.prepend_text, mark_append, headIs_cons, hp] at hhead
          cases hhead

end Finder

/-- What every run keeps holds of the masked text. -/
theorem mask_induct {motive : Masked → Prop} {family : Family} {language : Option Text} {code : Text}
    (hrun : ∀ find ∈ finders family language, ∀ masked, motive masked → motive (find.run masked))
    (h : motive ⟨code, []⟩) : motive (mask family language code) :=
  List.foldlRecOn _ _ h fun masked hmasked find hfind => hrun find hfind masked hmasked

theorem mask_eq_of_run {family : Family} {language : Option Text} {code : Text}
    (hrun : ∀ find ∈ finders family language, find.run ⟨code, []⟩ = ⟨code, []⟩) :
    mask family language code = ⟨code, []⟩ := by
  refine mask_induct (motive := (· = ⟨code, []⟩)) ?_ rfl
  rintro find hfind _ rfl
  exact hrun find hfind

/-- The first run cuts out what is quoted. -/
theorem mask_induct_quoted {motive : Masked → Prop} {family : Family} {language : Option Text}
    {code : Text} (hquoted : motive ((quoted family).run ⟨code, []⟩))
    (hrun : ∀ find ∈ (finders family language).tail, ∀ masked, motive masked →
      motive (find.run masked)) : motive (mask family language code) :=
  List.foldlRecOn (finders family language).tail _ hquoted
    fun masked hmasked find hfind => hrun find hfind masked hmasked

/-! ### Counting literals -/

/-- If no mark has a character of a class and every span has one, every literal takes one out of the
text for good. -/
theorem Finder.length_add_countP_le {find : Finder} {p : Char → Bool}
    (hmarks : ∀ number, ∀ c ∈ mark number, p c = false)
    (hspans : ∀ (before : Text) (c : Char) (cs : Text) (n : Nat), find before (c :: cs) = n + 1 →
      ∃ d ∈ c :: cs.take n, p d = true)
    (before t : Text) (literals : List Text) :
    (find.maskFrom before 0 t literals).literals.length +
        (find.maskFrom before 0 t literals).text.countP p ≤
      literals.length + t.countP p := by
  induction before, t using Finder.scan_induct find generalizing literals with
  | done before => exact Nat.le_refl _
  | passed before c cs hfind ih =>
      have htail := ih literals
      have hcons : (c :: cs).countP p = [c].countP p + cs.countP p :=
        @List.countP_append _ p [c] cs
      rw [Finder.maskFrom_cons hfind]
      simp only [Masked.prepend_text, Masked.prepend_literals, List.countP_append]
      omega
  | found before c cs n hfind ih =>
      have htail := ih (literals ++ [c :: cs.take n])
      have hpos : 0 < (c :: cs.take n).countP p :=
        List.countP_pos_iff.mpr (hspans before c cs n hfind)
      have hnone : (mark literals.length).countP p = 0 :=
        List.countP_eq_zero.mpr fun d hd => by simp [hmarks literals.length d hd]
      have hcons : (c :: cs).countP p = (c :: cs.take n).countP p + (cs.drop n).countP p := by
        rw [← List.countP_append, List.cons_append, List.take_append_drop]
      rw [Finder.maskFrom_span hfind]
      simp only [Masked.prepend_text, Masked.prepend_literals, List.countP_append, hnone,
        List.length_append, List.length_singleton] at htail ⊢
      omega

/-- How many characters of a text stand in no mark. -/
def weight (t : Text) : Nat :=
  t.countP isForeign

theorem Anchored.exists_foreign {span rest : Text} (h : Anchored span rest) :
    ∃ c ∈ span, isForeign c = true := by
  obtain ⟨before, c, after, rfl, hforeign, _⟩ := h
  exact ⟨c, by simp, hforeign⟩

/-- Every literal takes a character out of the text for good. -/
theorem Finder.Respects.length_add_weight_le {find : Finder} (hrespects : find.Respects)
    (before t : Text) (literals : List Text) :
    (find.maskFrom before 0 t literals).literals.length +
        weight (find.maskFrom before 0 t literals).text ≤
      literals.length + weight t :=
  find.length_add_countP_le (fun _ _ hc => isForeign_of_mem_mark hc)
    (fun before c cs n hfind => (hrespects.anchors before c cs n hfind).exists_foreign)
    before t literals

end SourceLayout.Literal
