import SourceLayout.Options
import SourceLayout.Proofs.Literal.Finders

/-!
# Restoring undoes masking

The finders of a family run one after the other, and each keeps what the text stands for. There are
at most as many literals as characters, so that every number can be read back.
-/

namespace SourceLayout.Literal

/-- A masked text that stands for `code`, with no more literals than `code` has characters. -/
def Stands (code : Text) (masked : Masked) : Prop :=
  Expands masked.literals masked.literals.length masked.text code ∧
    masked.literals.length + weight masked.text ≤ weight code

theorem Stands.run {find : Finder} (hrespects : find.Respects) {code : Text} {masked : Masked}
    (h : Stands code masked) : Stands code (find.run masked) := by
  have hcount := hrespects.length_add_weight_le [] masked.text masked.literals
  exact ⟨hrespects.maskFrom_expands h.1 [], Nat.le_trans hcount h.2⟩

theorem stands_mask (family : Family) (language : Option Text) {code : Text}
    (hplain : markOpen ∉ code) : Stands code (mask family language code) :=
  mask_induct (fun _ hfind _ hstands => hstands.run (finders_respect hfind))
    ⟨Expands.of_plain hplain, by simp⟩

theorem Stands.literals_length_le {code : Text} {masked : Masked} (h : Stands code masked) :
    masked.literals.length ≤ code.length := by
  have hweight : weight code ≤ code.length := List.countP_le_length
  have hle := h.2
  omega

/-- There are few enough literals for their numbers to be read. -/
theorem Stands.restore_eq {code : Text} {masked : Masked} (h : Stands code masked)
    (hlength : code.length ≤ numberLimit) : restore masked = .ok code :=
  h.1.restore_eq (Nat.le_trans h.literals_length_le hlength)

/-- The number of every literal of a text that can be addressed is short enough to be read, and
there is room for more. -/
theorem addressLimit_le : 2 * Options.addressLimit ≤ numberLimit := by
  have hdigits : 20 ≤ digitLimit := by decide
  have hshort : 2 * Options.addressLimit ≤ 10 ^ 20 := by decide
  unfold numberLimit
  generalize digitLimit = limit at hdigits ⊢
  exact Nat.le_trans hshort (Nat.pow_le_pow_right (Nat.succ_pos 9) hdigits)

/-- **Restoring undoes masking**, for every family and language, whether they fit or not. The bound
is far beyond the longest text that can be addressed. -/
theorem restore_mask (family : Family) (language : Option Text) (code : Text)
    (hplain : markOpen ∉ code) (hlength : code.length ≤ numberLimit) :
    restore (mask family language code) = .ok code :=
  (stands_mask family language hplain).restore_eq hlength

/-- A reference around a string, which is masked before it. -/
theorem restore_mask_nested :
    restore (mask .css (some "typescript".toList) "a<b> url('x') 1e5".toList) =
      .ok "a<b> url('x') 1e5".toList :=
  restore_mask .css _ _ (by decide) (Nat.le_trans (by decide) addressLimit_le)

/-! ### Marks that are there before -/

theorem run_mark {find : Finder} (hrespects : find.Respects) (number : Nat) :
    find.run ⟨mark number, []⟩ = ⟨mark number, []⟩ := by
  have hpass : ∀ i < (mark number).length,
      find (((mark number).take i).reverse ++ []) ((mark number).drop i ++ []) = 0 :=
    fun i hi => hrespects.passes [] number [] i hi
  have hrun := @Finder.maskFrom_pass find [] [] (mark number) [] hpass
  rw [List.append_nil] at hrun
  rw [Finder.run, hrun]
  simp [Finder.maskFrom, Masked.prepend]

theorem mask_mark (family : Family) (language : Option Text) (number : Nat) :
    mask family language (mark number) = ⟨mark number, []⟩ :=
  mask_eq_of_run fun _ hfind => run_mark (finders_respect hfind) number

/-- A mark that stands alone in a text from the start names no literal. -/
theorem restore_mask_mark (family : Family) (language : Option Text) (number : Nat) (code : Text) :
    restore (mask family language (mark number)) ≠ .ok code := by
  have hget : ∃ error, literalAt [] (Nat.toDigits 10 number) = .error error := by
    rw [literalAt]
    split <;> simp
  obtain ⟨error, hget⟩ := hget
  have hdigits : markDigits? (mark number ++ []) = some (Nat.toDigits 10 number) :=
    markDigits?_mark number []
  rw [mark_append] at hdigits
  have honce : restoreOnce [] 0 (mark number) = .error error := by
    rw [← List.append_nil (mark number), mark_append, restoreOnce_markDigits hdigits, hget]
    rfl
  have hmem : markOpen ∈ mark number := by simp [mark]
  rw [mask_mark, restore, restoreTimes, if_pos hmem, honce]
  simp [bind, Except.bind]

end SourceLayout.Literal
