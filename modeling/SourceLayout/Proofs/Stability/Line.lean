import SourceLayout.Proofs.Pieces

/-!
# Tidying code twice
-/

namespace SourceLayout.Line

open Literal (markOpen numberLimit)
open Text (tokens)

/-- The languages that are tidied in a way of their own, and none. -/
def knownLanguages : List (Option Text) :=
  none :: some "c".toList :: Literal.typeListLanguages.map some

theorem exists_known (language : Option Text) :
    ∃ known ∈ knownLanguages, ∀ family line,
      tidy family language line = tidy family known line := by
  by_cases hknown : language ∈ knownLanguages
  · exact ⟨language, hknown, fun _ _ => rfl⟩
  · refine ⟨none, List.mem_cons_self, fun family line => ?_⟩
    have hrules : Spacing.rules family language = Spacing.rules family none := by
      have hc : ¬(language = some "c".toList ∨ language = some "cpp".toList) := by
        rintro (rfl | rfl)
        · exact hknown (by decide)
        · exact hknown (by decide)
      cases family with
      | cFamily => rw [Spacing.rules, Spacing.rules, Spacing.cRules, if_neg hc]; rfl
      | javascript | python | html | css => rfl
    have hfinders : Literal.finders family language = Literal.finders family none := by
      have hlists : Literal.typeListLanguages.any (some · == language) = false := by
        rw [List.any_eq_false]
        intro name hname hsame
        refine hknown (List.mem_cons_of_mem _ (List.mem_cons_of_mem _ ?_))
        rw [beq_iff_eq] at hsame
        exact hsame ▸ List.mem_map_of_mem hname
      simp only [Literal.finders, hlists]
      rfl
    simp only [tidy, tidyCode, Literal.mask, hrules, hfinders]

/-- A sign after a comma is put next to its operand only if a blank stood between the two. -/
theorem tidy_sign {family : Family} (hcode : family ≠ .css ∧ family ≠ .html)
    (language : Option Text) :
    tidy family language "a,~ b".toList = .ok "a, ~ b".toList ∧
      tidy family language "a, ~ b".toList = .ok "a, ~b".toList := by
  obtain ⟨known, hknown, hsame⟩ := exists_known language
  have hall : ([.javascript, .cFamily, .python] : List Family).all (fun family =>
      knownLanguages.all fun known =>
        (tidy family known "a,~ b".toList).toOption == some "a, ~ b".toList &&
          (tidy family known "a, ~ b".toList).toOption == some "a, ~b".toList) = true := by
    decide +kernel
  have hfamily : family ∈ ([.javascript, .cFamily, .python] : List Family) := by
    cases family <;> simp_all
  have hown := List.all_eq_true.mp (List.all_eq_true.mp hall family hfamily) known hknown
  rw [Bool.and_eq_true, beq_iff_eq, beq_iff_eq] at hown
  rw [hsame, hsame]
  exact ⟨eq_ok_of_toOption hown.1, eq_ok_of_toOption hown.2⟩

/-- **Tidying code twice.** Two runs keep the tokens of a line as one does. But a sign after a comma
that no blank follows is put next to its operand only by the second. -/
theorem tidy_code_again (family : Family) (hcode : family ≠ .css ∧ family ≠ .html)
    (language : Option Text) :
    (∀ line out, markOpen ∉ line → out.length ≤ numberLimit →
      tidy family language line = .ok out →
      ∃ again, tidy family language out = .ok again ∧
        tokens .marked again = tokens .marked line) ∧
    (tidy family language "a,~ b".toList = .ok "a, ~ b".toList ∧
      tidy family language "a, ~ b".toList = .ok "a, ~b".toList) := by
  refine ⟨fun line out hplain hlength htidy => ?_, tidy_sign hcode language⟩
  have hout : markOpen ∉ out :=
    mt (Literal.mem_markOpen_iff_of_tokens_eq (tokens_tidy hplain htidy)).mp hplain
  obtain ⟨again, hagain⟩ := (exists_tidy_iff family language out).mpr
    (restorable_of_plain family language hout hlength)
  refine ⟨again, hagain, ?_⟩
  rw [tokens_tidy hout hagain, tokens_tidy hplain htidy]

theorem tidy_code_again_call :
    ∃ again, tidy .python none "f(a, -1)".toList = .ok again ∧
      tokens .marked again = tokens .marked "f( a,- 1 )".toList := by
  obtain ⟨hagain, _⟩ := tidy_code_again .python (by decide) none
  exact hagain "f( a,- 1 )".toList "f(a, -1)".toList (by decide +kernel)
    (Nat.le_trans (by decide +kernel) Literal.addressLimit_le) (eq_ok_of_toOption (by decide +kernel))

end SourceLayout.Line
