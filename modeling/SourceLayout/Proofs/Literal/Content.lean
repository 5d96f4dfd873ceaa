import SourceLayout.Proofs.Literal.Run

/-!
# Characters of a masked text

Masking and restoring move characters between a text and its literals. Signs and digits of marks
apart, they write no character that was not there.
-/

namespace SourceLayout.Literal

/-- A character stands in the text or in one of its literals. -/
def Masked.Holds (masked : Masked) (c : Char) : Prop :=
  c ∈ masked.text ∨ ∃ literal ∈ masked.literals, c ∈ literal

variable {c : Char}

theorem Masked.Holds.of_text_imp {t t' : Text} {literals : List Text}
    (h : Masked.Holds ⟨t, literals⟩ c) (htext : c ∈ t → c ∈ t') : Masked.Holds ⟨t', literals⟩ c :=
  h.imp_left htext

theorem Finder.holds_of_maskFrom {find : Finder} (hforeign : isForeign c = true) {before t : Text}
    {literals : List Text} (hholds : (find.maskFrom before 0 t literals).Holds c) :
    Masked.Holds ⟨t, literals⟩ c := by
  induction before, t using scan_induct find generalizing literals with
  | done before => exact hholds
  | passed before d ds hfind ih =>
      have hrest : Masked.Holds ⟨ds, literals⟩ c → Masked.Holds ⟨d :: ds, literals⟩ c :=
        fun h => h.of_text_imp (List.mem_cons_of_mem d)
      rw [maskFrom_cons hfind] at hholds
      rcases hholds with htext | hliteral
      · rcases List.mem_cons.mp htext with rfl | htext
        · exact .inl List.mem_cons_self
        · exact hrest (ih (.inl htext))
      · exact hrest (ih (.inr hliteral))
  | found before d ds n hfind ih =>
      -- The new literal is a piece of the text.
      have hrest : Masked.Holds ⟨ds.drop n, literals ++ [d :: ds.take n]⟩ c →
          Masked.Holds ⟨d :: ds, literals⟩ c := by
        rintro (htext | ⟨literal, hliteral, hmem⟩)
        · exact .inl (List.mem_cons_of_mem d (List.mem_of_mem_drop htext))
        · rcases List.mem_append.mp hliteral with hold | hnew
          · exact .inr ⟨literal, hold, hmem⟩
          · obtain rfl := List.mem_singleton.mp hnew
            exact .inl ((List.take_prefix (n + 1) (d :: ds)).mem hmem)
      rw [maskFrom_span hfind] at hholds
      rcases hholds with htext | hliteral
      · rcases List.mem_append.mp htext with hmark | htext
        · simp [isForeign_of_mem_mark hmark] at hforeign
        · exact hrest (ih (.inl htext))
      · exact hrest (ih (.inr hliteral))

theorem mem_of_holds_mask (hforeign : isForeign c = true) {family : Family}
    {language : Option Text} {code : Text} (hholds : (mask family language code).Holds c) :
    c ∈ code := by
  have hstart : Masked.Holds ⟨code, []⟩ c :=
    mask_induct (motive := fun masked => masked.Holds c → Masked.Holds ⟨code, []⟩ c)
      (fun _ _ _ hmasked hrun => hmasked (Finder.holds_of_maskFrom hforeign hrun)) id hholds
  simpa [Masked.Holds] using hstart

/-! ### Restoring -/

variable {literals : List Text}

theorem mem_of_literalAt {digits literal : Text} (hget : literalAt literals digits = .ok literal) :
    literal ∈ literals := by
  rw [literalAt] at hget
  split at hget
  · cases hget
  · split at hget
    next _ hsome =>
        cases hget
        exact List.mem_of_getElem? hsome
    next => cases hget

theorem holds_of_restoreOnce {t restored : Text}
    (hrestore : restoreOnce literals 0 t = .ok restored) (hc : c ∈ restored) :
    Masked.Holds ⟨t, literals⟩ c := by
  induction t using read_induct generalizing restored with
  | done =>
      cases hrestore
      exact .inl hc
  | char d ds hmark ih =>
      obtain ⟨others, hothers, rfl⟩ := exists_of_restoreOnce_cons hmark hrestore
      rcases List.mem_cons.mp hc with rfl | hc
      · exact .inl List.mem_cons_self
      · exact (ih hothers hc).of_text_imp (List.mem_cons_of_mem d)
  | mark d ds digits hmark ih =>
      obtain ⟨literal, others, hget, hothers, rfl⟩ :=
        exists_of_restoreOnce_markDigits hmark hrestore
      rcases List.mem_append.mp hc with hc | hc
      · exact .inr ⟨literal, mem_of_literalAt hget, hc⟩
      · exact (ih hothers hc).of_text_imp fun hmem =>
          List.mem_cons_of_mem d (List.mem_of_mem_drop hmem)

theorem holds_of_restoreTimes {passes : Nat} {t restored : Text}
    (hrestore : restoreTimes literals passes t = .ok restored) (hc : c ∈ restored) :
    Masked.Holds ⟨t, literals⟩ c := by
  have hback : Masked.Holds ⟨restored, literals⟩ c → Masked.Holds ⟨t, literals⟩ c := by
    refine restoreTimes_induct
      (motive := fun next => Masked.Holds ⟨next, literals⟩ c → Masked.Holds ⟨t, literals⟩ c)
      hrestore id fun s next honce hbefore hnext => hbefore ?_
    rcases hnext with htext | hliteral
    · exact holds_of_restoreOnce honce htext
    · exact .inr hliteral
  exact hback (.inl hc)

theorem holds_of_restore {masked : Masked} {restored : Text}
    (hrestore : restore masked = .ok restored) (hc : c ∈ restored) : masked.Holds c :=
  holds_of_restoreTimes hrestore hc

end SourceLayout.Literal
