import SourceLayout.Proofs.Plain
import SourceLayout.Proofs.Spacing.Hug
import SourceLayout.Proofs.Literal.Rescan

/-!
# Stretches in one piece

A stretch is found again after a rule by the characters before it that are no blanks. A rule that only
takes blanks away keeps it in one piece, and so does a rule that keeps the tokens of words that hold
its characters.
-/

namespace SourceLayout.Spacing

open Text (solid solid_append solid_blanks solid_of_forall tokens)

/-- A stretch in one piece, after a text with these characters. -/
def Joined (front core t : Text) : Prop :=
  ∃ u v, t = u ++ (core ++ v) ∧ solid u = front

/-- Where blanks are taken away only, each part keeps its own characters. -/
theorem solid_of_sublists {u v u' v' : Text} (hu : u'.Sublist u) (hv : v'.Sublist v)
    (hsolid : solid (u' ++ v') = solid (u ++ v)) : solid u' = solid u ∧ solid v' = solid v := by
  have hcount := congrArg List.length hsolid
  rw [solid_append, solid_append, List.length_append, List.length_append] at hcount
  have hleft : (solid u').Sublist (solid u) := hu.filter _
  have hright : (solid v').Sublist (solid v) := hv.filter _
  have := hleft.length_le
  have := hright.length_le
  exact ⟨hleft.eq_of_length (by omega), hright.eq_of_length (by omega)⟩

/-- Two fronts of a text with the same characters differ in blanks only. -/
theorem exists_gap {u u' v v' : Text} (hsame : u ++ v = u' ++ v') (hsolid : solid u = solid u') :
    ∃ gap : Text, gap.all isBlank = true ∧
      (u' = u ++ gap ∧ v = gap ++ v' ∨ u = u' ++ gap ∧ v' = gap ++ v) := by
  have hblank : ∀ {front gap : Text}, solid front = solid (front ++ gap) → gap.all isBlank = true := by
    intro front gap hsolid
    rw [solid_append, List.self_eq_append_right, solid, List.filter_eq_nil_iff] at hsolid
    exact List.all_eq_true.mpr fun c hc => by simpa using hsolid c hc
  rcases List.append_eq_append_iff.mp hsame with ⟨gap, rfl, hv⟩ | ⟨gap, rfl, hv⟩
  · exact ⟨gap, hblank hsolid, .inl ⟨rfl, hv⟩⟩
  · exact ⟨gap, hblank hsolid.symm, .inr ⟨rfl, hv⟩⟩

/-- Before a character that is no blank the characters tell where a text is cut. -/
theorem eq_of_solid {u u' v v' : Text} (hsame : u ++ v = u' ++ v') (hsolid : solid u = solid u')
    (hv : headIs isBlank v = false) (hv' : headIs isBlank v' = false) : v = v' := by
  obtain ⟨gap, hgap, ⟨-, rfl⟩ | ⟨-, rfl⟩⟩ := exists_gap hsame hsolid
  · rw [Text.eq_nil_of_headIs hgap hv, List.nil_append]
  · rw [Text.eq_nil_of_headIs hgap hv', List.nil_append]

theorem solid_cancel_right {u u' v v' : Text} (hsolid : solid (u ++ v) = solid (u' ++ v'))
    (hback : solid v = solid v') : solid u = solid u' := by
  rw [solid_append, solid_append, hback] at hsolid
  exact List.append_cancel_right hsolid

theorem solid_of_tokens {words : WordClass} {t t' : Text} (htokens : tokens words t' = tokens words t) :
    solid t' = solid t := by
  rw [← Text.flatten_tokens words, htokens, Text.flatten_tokens]

theorem solid_apply {rule : Rule} (hmarked : rule.isSafe .marked [] = true) (t : Text) :
    solid (rule.apply t) = solid t :=
  solid_of_tokens (Rule.tokens_apply hmarked (by simp [Text.Lacks]))

theorem solid_respaceFrom {pattern : Pattern} (hsafe : Pattern.isSafe .marked [] false pattern = true)
    (before t : Text) : solid (pattern.respaceFrom before 0 t) = solid t := by
  have hlacks : Text.Lacks [] t := by simp [Text.Lacks]
  exact solid_of_tokens (Pattern.respaceFrom_respaced hsafe before hlacks).tokens_eq.symm

namespace Joined

variable {words : WordClass} {front core core' t t' : Text}

theorem of_sublist (hcore : ∀ c ∈ core, isBlank c = false) (h : Joined front core t)
    (hsub : t'.Sublist t) (hsolid : solid t' = solid t) : Joined front core t' := by
  obtain ⟨u, v, rfl, rfl⟩ := h
  obtain ⟨u', rest, rfl, hu, hrest⟩ := List.sublist_append_iff.mp hsub
  obtain ⟨hfront, hsolid⟩ := solid_of_sublists hu hrest hsolid
  obtain ⟨stretch, v', rfl, hstretch, hv⟩ := List.sublist_append_iff.mp hrest
  obtain ⟨hsolid, _⟩ := solid_of_sublists hstretch hv hsolid
  have hcount : core.length ≤ stretch.length := by
    have hshort := (List.filter_sublist (p := fun c => !isBlank c) (l := stretch)).length_le
    rwa [← solid, hsolid, solid_of_forall hcore] at hshort
  obtain rfl := hstretch.eq_of_length_le hcount
  exact ⟨u', v', rfl, hfront⟩

theorem of_tokens (hne : core ≠ []) (hcore : ∀ c ∈ core, words.has c = true) (h : Joined front core t)
    (htokens : tokens words t' = tokens words t) : Joined front core t' := by
  obtain ⟨u, v, rfl, rfl⟩ := h
  obtain ⟨u', rest, rfl, hrest⟩ := Text.exists_split_of_tokens htokens
  obtain ⟨gap, v', rfl, hgap, _, _⟩ := Text.exists_of_tokens_append hne hcore hrest
  refine ⟨u' ++ gap, v', by simp, ?_⟩
  have hfront := solid_cancel_right (solid_of_tokens htokens) (solid_of_tokens hrest)
  rw [solid_append, solid_blanks hgap, List.append_nil, hfront]

/-- Two stretches one after the other have blanks between them. -/
theorem exists_next (hcore : ∀ c ∈ core', isBlank c = false) (hne : core' ≠ [])
    (h : Joined front core t) (h' : Joined (front ++ solid core) core' t) :
    ∃ u gap v, t = u ++ (core ++ (gap ++ (core' ++ v))) ∧ gap.all isBlank = true ∧ solid u = front := by
  obtain ⟨u, v, rfl, rfl⟩ := h
  obtain ⟨u', v', hsame, hu'⟩ := h'
  rw [← List.append_assoc] at hsame
  obtain ⟨gap, hgap, ⟨-, rfl⟩ | ⟨-, hv⟩⟩ := exists_gap hsame (by rw [solid_append, hu'])
  · exact ⟨u, gap, v', rfl, hgap, rfl⟩
  · have hhead : headIs isBlank (core' ++ v') = false := by
      cases core' with
      | nil => exact absurd rfl hne
      | cons c cs => exact hcore c List.mem_cons_self
    rw [hv] at hhead
    obtain rfl := Text.eq_nil_of_headIs hgap hhead
    exact ⟨u, [], v', by rw [hv]; rfl, rfl, rfl⟩

theorem apply (hne : core ≠ []) (hcore : ∀ c ∈ core, words.has c = true) (h : Joined front core t)
    {rule : Rule} (hrule : (rule.deletes || rule.isSafe words []) = true)
    (hmarked : rule.isSafe .marked [] = true) : Joined front core (rule.apply t) := by
  rcases (Bool.or_eq_true _ _).mp hrule with hdeletes | hsafe
  · exact h.of_sublist (fun c hc => words.isBlank_eq_false c (hcore c hc))
      (Rule.apply_sublist hdeletes t) (solid_apply hmarked t)
  · exact h.of_tokens hne hcore (Rule.tokens_apply hsafe (by simp [Text.Lacks]))

theorem applyAll (hne : core ≠ []) (hcore : ∀ c ∈ core, words.has c = true) {rules : List Rule}
    (hrules : ∀ rule ∈ rules, (rule.deletes || rule.isSafe words []) = true)
    (hmarked : ∀ rule ∈ rules, rule.isSafe .marked [] = true) (h : Joined front core t) :
    Joined front core (applyAll rules t) :=
  applyAll_induct (fun rule hrule _ h => h.apply hne hcore (hrules rule hrule) (hmarked rule hrule)) h

end Joined

end SourceLayout.Spacing
