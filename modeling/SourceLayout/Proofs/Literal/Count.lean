import SourceLayout.Proofs.Format
import SourceLayout.Proofs.Trimmed

/-!
# How many literals a text has

Every span that is found has a character that stands in no mark and is no blank. So a text has at
most as many literals as characters that are no blanks, and however blanks are put into it, the
numbers of its literals can be read back.
-/

namespace SourceLayout

namespace Literal

/-- A character that stands in no mark and is no blank. -/
def isSign (c : Char) : Bool :=
  isForeign c && !isBlank c

/-- A finder whose spans all have a sign in them. -/
def Finder.Signs (find : Finder) : Prop :=
  ∀ (before : Text) (c : Char) (cs : Text) (n : Nat), find before (c :: cs) = n + 1 →
    ∃ d ∈ c :: cs.take n, isSign d = true

theorem quoted_signs (family : Family) : Finder.Signs (quoted family) := by
  intro before c cs n hfind
  refine ⟨c, List.mem_cons_self, ?_⟩
  cases hend : family.literalEnd? before.head? c with
  | none =>
      rw [quoted_eq_zero_of_none hend] at hfind
      cases hfind
  | some stop => simp [isSign, (isForeign_of_literalEnd? hend).1, (isBlank_of_literalEnd? hend).1]

theorem resource_signs : Finder.Signs resource := by
  intro before c cs n hfind
  obtain ⟨u, r, l, inner, others, hsplit, _, _, rfl⟩ := resource_cases hfind
  obtain ⟨rfl, rfl⟩ := List.cons.inj hsplit
  exact ⟨'(', by simp, by decide +kernel⟩

theorem typeList_signs : Finder.Signs typeList := by
  intro before c cs n hfind
  obtain ⟨inner, others, hsplit, _⟩ := typeList_cases hfind
  obtain ⟨rfl, _⟩ := List.cons.inj hsplit
  exact ⟨'<', List.mem_cons_self, by decide +kernel⟩

theorem shift_signs : Finder.Signs shift := by
  have hoperators : ∀ operator ∈ shiftOperators, headIs isSign operator = true := by decide +kernel
  intro before c cs n hfind
  exact ⟨c, List.mem_cons_self, hoperators _ (shift_cases hfind)⟩

/-- The letter of the exponent counts. -/
theorem exponent_signs : Finder.Signs exponent := by
  intro before c cs n hfind
  obtain ⟨whole, fraction, e, sign, digits, hspan, _, _, he, _⟩ := exponent_cases hfind
  rw [List.take_succ_cons] at hspan
  refine ⟨e, by simp [hspan], ?_⟩
  rcases he with rfl | rfl <;> decide +kernel

theorem finders_sign {family : Family} {language : Option Text} {find : Finder}
    (hfind : find ∈ finders family language) : find.Signs := by
  simp only [finders, List.mem_cons, List.mem_append] at hfind
  rcases hfind with rfl | ((hfind | hfind) | hfind) | hfind
  · exact quoted_signs family
  · split at hfind <;> simp_all [resource_signs]
  · split at hfind <;> simp_all [exponent_signs]
  · split at hfind <;> simp_all [typeList_signs]
  · split at hfind <;> simp_all [shift_signs]

theorem length_add_countP_mask_le (family : Family) (language : Option Text) (code : Text) :
    (mask family language code).literals.length +
        (mask family language code).text.countP isSign ≤ code.countP isSign := by
  have hmarks : ∀ number, ∀ c ∈ mark number, isSign c = false := by
    intro number c hc
    rw [isSign, isForeign_of_mem_mark hc, Bool.false_and]
  refine mask_induct (motive := fun masked =>
    masked.literals.length + masked.text.countP isSign ≤ code.countP isSign) ?_ (by simp)
  intro find hfind masked hle
  exact Nat.le_trans (find.length_add_countP_le hmarks (finders_sign hfind) [] _ _) hle

/-- There are at most as many literals as characters that are no blanks. -/
theorem length_literals_le (family : Family) (language : Option Text) (code : Text) :
    (mask family language code).literals.length ≤ code.solid.length := by
  have hcount := length_add_countP_mask_le family language code
  have hsolid : code.countP isSign ≤ code.solid.length := by
    rw [Text.solid, ← List.countP_eq_length_filter]
    exact List.countP_mono_left fun c _ hc => by simp_all [isSign]
  omega

end Literal

end SourceLayout
