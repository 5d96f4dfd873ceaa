import SourceLayout.Proofs.Literal.Mark

/-!
# What a masked text stands for

A span that is cut out may hold marks of spans cut out before it, so marks are nested; each literal
holds marks with smaller numbers only. `Expands literals bound t o` says that the text `t`, whose
marks are numbered below `bound`, stands for `o`. One pass of restoring lowers the bound by one,
so restoring is done after as many passes as there are literals.
-/

namespace SourceLayout.Literal

inductive Expands (literals : List Text) : Nat → Text → Text → Prop
  | nil {bound : Nat} : Expands literals bound [] []
  | char {bound : Nat} {c : Char} {t o : Text} (hc : c ≠ markOpen)
      (hrest : Expands literals bound t o) : Expands literals bound (c :: t) (c :: o)
  | mark {bound number : Nat} {span part t o : Text} (hlt : number < bound)
      (hget : literals[number]? = some span) (hpart : Expands literals number span part)
      (hrest : Expands literals bound t o) :
      Expands literals bound (mark number ++ t) (part ++ o)

namespace Expands

variable {literals : List Text} {bound : Nat}

theorem of_plain {t : Text} (hplain : markOpen ∉ t) : Expands literals bound t t := by
  induction t with
  | nil => exact .nil
  | cons c cs ih =>
      simp only [List.mem_cons, not_or] at hplain
      exact .char (Ne.symm hplain.1) (ih hplain.2)

theorem append {t o t' o' : Text} (h : Expands literals bound t o)
    (h' : Expands literals bound t' o') : Expands literals bound (t ++ t') (o ++ o') := by
  induction h with
  | nil => exact h'
  | char hc _ ih => exact .char hc (ih h')
  | mark hlt hget hpart _ _ ih =>
      rw [List.append_assoc, List.append_assoc]
      exact .mark hlt hget hpart (ih h')

theorem mono {bound' : Nat} (hle : bound ≤ bound') {t o : Text}
    (h : Expands literals bound t o) : Expands literals bound' t o := by
  induction h with
  | nil => exact .nil
  | char hc _ ih => exact .char hc (ih hle)
  | mark hlt hget hpart _ _ ih => exact .mark (Nat.lt_of_lt_of_le hlt hle) hget hpart (ih hle)

/-- Further literals do not matter. -/
theorem extend (extra : List Text) {t o : Text} (h : Expands literals bound t o) :
    Expands (literals ++ extra) bound t o := by
  induction h with
  | nil => exact .nil
  | char hc _ ih => exact .char hc ih
  | mark hlt hget _ _ ihpart ih =>
      refine .mark hlt ?_ ihpart ih
      rw [List.getElem?_append_left (List.getElem?_eq_some_iff.mp hget).1]
      exact hget

theorem eq_of_plain {t o : Text} (h : Expands literals bound t o) (hplain : markOpen ∉ t) :
    t = o := by
  induction h with
  | nil => rfl
  | char hc _ ih =>
      simp only [List.mem_cons, not_or] at hplain
      rw [ih hplain.2]
  | mark hlt hget hpart _ _ _ => simp [Literal.mark] at hplain

theorem plain_of_zero {t o : Text} (h : Expands literals 0 t o) : markOpen ∉ t := by
  generalize hzero : 0 = below at h
  induction h with
  | nil => simp
  | char hc _ ih =>
      simp only [List.mem_cons, not_or]
      exact ⟨Ne.symm hc, ih hzero⟩
  | mark hlt _ _ _ => omega

/-! ### Restoring -/

/-- One pass replaces every mark by a literal whose own marks have smaller numbers. -/
theorem restoreOnce_eq {t o : Text} (hlimit : bound < numberLimit)
    (h : Expands literals (bound + 1) t o) :
    ∃ t', restoreOnce literals 0 t = .ok t' ∧ Expands literals bound t' o := by
  generalize hsucc : bound + 1 = above at h
  induction h with
  | nil => exact ⟨[], rfl, .nil⟩
  | @char above c t o hc hrest ih =>
      obtain ⟨t', hrestore, hexpands⟩ := ih hsucc
      refine ⟨c :: t', ?_, .char hc hexpands⟩
      rw [restoreOnce_cons (markDigits?_cons_of_ne hc t), hrestore]
      rfl
  | @mark above number span part t o hlt hget hpart hrest _ ih =>
      obtain ⟨t', hrestore, hexpands⟩ := ih hsucc
      have hle : number ≤ bound := by omega
      refine ⟨span ++ t', ?_, (hpart.mono hle).append hexpands⟩
      rw [restoreOnce_mark (Nat.lt_of_le_of_lt hle hlimit) hget, hrestore]
      rfl

theorem restoreTimes_eq {t o : Text} (hlimit : bound ≤ numberLimit)
    (h : Expands literals bound t o) (passes : Nat) (hpasses : bound ≤ passes) :
    restoreTimes literals passes t = .ok o := by
  induction passes generalizing bound t with
  | zero =>
      obtain rfl : bound = 0 := by omega
      rw [restoreTimes, h.eq_of_plain h.plain_of_zero]
  | succ passes ih =>
      rw [restoreTimes]
      split
      next hmem =>
          cases bound with
          | zero => exact absurd hmem h.plain_of_zero
          | succ bound =>
              obtain ⟨t', hrestore, hexpands⟩ := h.restoreOnce_eq (by omega)
              rw [hrestore]
              exact ih (by omega) hexpands (by omega)
      next hplain => rw [h.eq_of_plain hplain]

/-- Restoring gives what a masked text stands for. -/
theorem restore_eq {masked : Masked} {o : Text}
    (hlimit : masked.literals.length ≤ numberLimit)
    (h : Expands masked.literals masked.literals.length masked.text o) :
    restore masked = .ok o :=
  h.restoreTimes_eq hlimit _ (Nat.le_succ _)

/-- One pass that does not fail leaves a text that stands for the same. -/
theorem of_restoreOnce {t t' o : Text} (h : Expands literals (bound + 1) t o)
    (honce : restoreOnce literals 0 t = .ok t') : Expands literals bound t' o := by
  generalize hsucc : bound + 1 = above at h
  induction h generalizing t' with
  | nil =>
      cases honce
      exact .nil
  | @char above c t o hc hrest ih =>
      obtain ⟨rest, hrestore, rfl⟩ :=
        exists_of_restoreOnce_cons (markDigits?_cons_of_ne hc t) honce
      exact .char hc (ih hrestore hsucc)
  | @mark above number span part t o hlt hget hpart hrest _ ih =>
      obtain ⟨literal, others, hliteral, hothers, rfl⟩ := exists_of_restoreOnce_mark honce
      obtain rfl : span = literal := Option.some.inj (hget.symm.trans hliteral)
      exact (hpart.mono (by omega)).append (ih hothers hsucc)

theorem eq_of_restoreTimes {t o out : Text} (h : Expands literals bound t o) {passes : Nat}
    (hpasses : bound ≤ passes) (hrestore : restoreTimes literals passes t = .ok out) : out = o := by
  induction passes generalizing bound t with
  | zero =>
      obtain rfl : bound = 0 := by omega
      cases hrestore
      exact h.eq_of_plain h.plain_of_zero
  | succ passes ih =>
      rw [restoreTimes] at hrestore
      split at hrestore
      next hmem =>
          cases bound with
          | zero => exact absurd hmem h.plain_of_zero
          | succ bound =>
              obtain ⟨t', honce, hrestore⟩ := exists_of_bind_eq_ok hrestore
              exact ih (h.of_restoreOnce honce) (by omega) hrestore
      next hplain =>
          cases hrestore
          exact h.eq_of_plain hplain

/-- Whatever restoring gives is what the masked text stands for. -/
theorem eq_of_restore {masked : Masked} {o out : Text}
    (h : Expands masked.literals masked.literals.length masked.text o)
    (hrestore : restore masked = .ok out) : out = o :=
  h.eq_of_restoreTimes (Nat.le_succ _) hrestore

/-! ### Cutting a masked text -/

/-- A text that breaks off inside a mark. -/
def BreaksOff (t : Text) : Prop :=
  ∃ before digits : Text, t = before ++ markOpen :: digits ∧ digits.all isDecimal = true

/-- After a sign that belongs to no mark and without another opening sign, no mark is open. -/
theorem not_breaksOff {c : Char} (hopen : c ≠ markOpen) (hdecimal : isDecimal c = false)
    (before : Text) {after : Text} (hafter : markOpen ∉ after) :
    ¬BreaksOff (before ++ c :: after) := by
  rintro ⟨left, digits, hsplit, hdigits⟩
  rw [List.append_eq_append_iff] at hsplit
  rcases hsplit with ⟨middle, rfl, hright⟩ | ⟨middle, rfl, hright⟩
  · cases middle with
    | nil => simp_all
    | cons d ds =>
        simp only [List.cons_append, List.cons.injEq] at hright
        apply hafter
        rw [hright.2]
        simp
  · cases middle with
    | nil => simp_all
    | cons d ds =>
        simp only [List.cons_append, List.cons.injEq] at hright
        rw [hright.2] at hdigits
        simp [hdecimal] at hdigits

theorem eq_nil_or_breaksOff_or_nil_of_mark {number : Nat} {left right : Text}
    (hmark : Literal.mark number = left ++ right) : left = [] ∨ BreaksOff left ∨ right = [] := by
  cases left with
  | nil => exact .inl rfl
  | cons c left =>
      simp only [Literal.mark, List.cons_append, List.cons.injEq] at hmark
      obtain ⟨rfl, hdigits⟩ := hmark
      rcases List.append_eq_append_iff.mp hdigits with ⟨middle, rfl, hright⟩ | ⟨middle, hleft, _⟩
      · cases middle with
        | nil => exact .inr (.inl ⟨[], _, rfl, by
            simp only [List.append_nil, List.all_eq_true]
            exact fun d hd => isDecimal_of_mem_toDigits hd⟩)
        | cons d ds => exact .inr (.inr (by simp_all))
      · refine .inr (.inl ⟨[], left, rfl, ?_⟩)
        simp only [List.all_eq_true]
        exact fun d hd => isDecimal_of_mem_toDigits (hleft ▸ List.mem_append_left middle hd)

/-- A masked text can be cut wherever the cut does not go through a mark. -/
theorem split {left right o : Text} (h : Expands literals bound (left ++ right) o)
    (hcut : ¬BreaksOff left) :
    ∃ oleft oright : Text, o = oleft ++ oright ∧ Expands literals bound left oleft ∧
      Expands literals bound right oright := by
  generalize ht : left ++ right = t at h
  induction h generalizing left with
  | nil =>
      obtain ⟨rfl, rfl⟩ := List.append_eq_nil_iff.mp ht
      exact ⟨[], [], rfl, .nil, .nil⟩
  | @char bound c t o hc hrest ih =>
      cases left with
      | nil =>
          obtain rfl : right = c :: t := ht
          exact ⟨[], c :: o, rfl, .nil, .char hc hrest⟩
      | cons d left =>
          obtain ⟨rfl, htail⟩ : d = c ∧ left ++ right = t := by simpa using ht
          have hcut' : ¬BreaksOff left := by
            rintro ⟨before, digits, rfl, hdigits⟩
            exact hcut ⟨d :: before, digits, rfl, hdigits⟩
          obtain ⟨oleft, oright, rfl, hleft, hright⟩ := ih hcut' htail
          exact ⟨d :: oleft, oright, rfl, .char hc hleft, hright⟩
  | @mark bound number span part t o hlt hget hpart hrest _ ih =>
      rcases List.append_eq_append_iff.mp ht with ⟨middle, hmark, rfl⟩ | ⟨middle, rfl, htail⟩
      · -- The cut is before the mark or after it, or the left part breaks off inside it.
        rcases eq_nil_or_breaksOff_or_nil_of_mark hmark with rfl | hbreaks | rfl
        · rw [List.nil_append] at hmark
          exact ⟨[], part ++ o, rfl, .nil, hmark ▸ .mark hlt hget hpart hrest⟩
        · exact absurd hbreaks hcut
        · rw [List.append_nil] at hmark
          refine ⟨part, o, rfl, ?_, hrest⟩
          have hwhole := Expands.mark hlt hget hpart .nil
          rwa [List.append_nil, List.append_nil, hmark] at hwhole
      · have hcut' : ¬BreaksOff middle := by
          rintro ⟨before, digits, rfl, hdigits⟩
          exact hcut ⟨Literal.mark number ++ before, digits, by simp, hdigits⟩
        obtain ⟨oleft, oright, rfl, hleft, hright⟩ := ih hcut' htail.symm
        exact ⟨part ++ oleft, oright, by simp, .mark hlt hget hpart hleft, hright⟩

end Expands

end SourceLayout.Literal
