import SourceLayout.Literal.Restore
import SourceLayout.Proofs.Token

/-!
# Marks

A mark is an opening sign, the digits of a number and a closing sign. The opening sign starts
nothing else, so a text without it holds no mark, and the number can be read back from the digits.
-/

namespace SourceLayout

/-! ### Computations that succeed -/

theorem exists_of_map_eq_ok {ε α β : Type} {f : α → β} {x : Except ε α} {b : β}
    (hmap : x.map f = .ok b) : ∃ a, x = .ok a ∧ f a = b := by
  cases x with
  | error error => cases hmap
  | ok a => exact ⟨a, rfl, by simpa [Except.map] using hmap⟩

theorem exists_of_bind_eq_ok {ε α β : Type} {x : Except ε α} {f : α → Except ε β} {b : β}
    (hbind : x >>= f = .ok b) : ∃ a, x = .ok a ∧ f a = .ok b := by
  cases x with
  | error error => cases hbind
  | ok a => exact ⟨a, rfl, hbind⟩

theorem bind_eq_ok_iff {ε α β : Type} {x : Except ε α} {f : α → Except ε β} {b : β} :
    x >>= f = .ok b ↔ ∃ a, x = .ok a ∧ f a = .ok b := by
  refine ⟨exists_of_bind_eq_ok, ?_⟩
  rintro ⟨a, rfl, hf⟩
  exact hf

theorem eq_ok_of_mapError {ε ε' α : Type} {f : ε → ε'} {x : Except ε α} {value : α}
    (hx : x.mapError f = .ok value) : x = .ok value := by
  cases x with
  | error error => cases hx
  | ok own =>
      cases hx
      rfl

/-! ### Numbers and their digits -/

theorem digitValue?_digitChar : ∀ digit < 10, digitValue? (Nat.digitChar digit) = some digit := by
  decide

theorem decimalValue_append (digits : List Char) (c : Char) :
    decimalValue (digits ++ [c]) = decimalValue digits * 10 + (digitValue? c).getD 0 := by
  simp [decimalValue]

theorem decimalValue_toDigits (number : Nat) : decimalValue (Nat.toDigits 10 number) = number := by
  induction number using Nat.strongRecOn with
  | ind number ih =>
      by_cases hsmall : number < 10
      · rw [Nat.toDigits_of_lt_base hsmall]
        simp [decimalValue, digitValue?_digitChar number hsmall]
      · have hlast : number % 10 < 10 := Nat.mod_lt number (by decide)
        rw [Nat.toDigits_of_base_le (by decide) (Nat.le_of_not_lt hsmall), decimalValue_append,
          ih (number / 10) (by omega), digitValue?_digitChar _ hlast, Option.getD_some]
        omega

theorem toNat_lt_of_isDigit {c : Char} (hdigit : c.isDigit = true) : c.toNat < 128 := by
  simp only [Char.isDigit, Bool.and_eq_true, decide_eq_true_eq] at hdigit
  have hle : c.val.toNat ≤ 57 := UInt32.le_iff_toNat_le.mp hdigit.2
  change c.val.toNat < 128
  omega

theorem isDecimal_of_isDigit {c : Char} (hdigit : c.isDigit = true) : isDecimal c = true := by
  rw [isDecimal, if_pos (toNat_lt_of_isDigit hdigit)]
  exact hdigit

namespace Literal

theorem isDecimal_markOpen : isDecimal markOpen = false := by
  decide +kernel

theorem isDecimal_markClose : isDecimal markClose = false := by
  decide +kernel

theorem isDecimal_of_mem_toDigits {number : Nat} {c : Char} (hc : c ∈ Nat.toDigits 10 number) :
    isDecimal c = true :=
  isDecimal_of_isDigit (Nat.isDigit_of_mem_toDigits (by decide) (by decide) hc)

theorem takeWhile_digits {number : Nat} {c : Char} (hc : isDecimal c = false) (rest : Text) :
    (Nat.toDigits 10 number ++ c :: rest).takeWhile isDecimal = Nat.toDigits 10 number := by
  rw [List.takeWhile_append_of_pos fun _ hd => isDecimal_of_mem_toDigits hd,
    List.takeWhile_cons_of_neg (by simp [hc]), List.append_nil]

theorem dropWhile_digits {number : Nat} {c : Char} (hc : isDecimal c = false) (rest : Text) :
    (Nat.toDigits 10 number ++ c :: rest).dropWhile isDecimal = c :: rest := by
  rw [List.dropWhile_append_of_pos fun _ hd => isDecimal_of_mem_toDigits hd,
    List.dropWhile_cons_of_neg (by simp [hc])]

theorem mark_append (number : Nat) (rest : Text) :
    mark number ++ rest = markOpen :: (Nat.toDigits 10 number ++ markClose :: rest) := by
  simp [mark]

@[simp]
theorem markDigits?_mark (number : Nat) (rest : Text) :
    markDigits? (mark number ++ rest) = some (Nat.toDigits 10 number) := by
  rw [mark_append]
  simp [markDigits?, takeWhile_digits isDecimal_markClose, dropWhile_digits isDecimal_markClose]

theorem markDigits?_cons_of_ne {c : Char} (hc : c ≠ markOpen) (rest : Text) :
    markDigits? (c :: rest) = none := by
  simp [markDigits?, hc]

/-- A text is read character by character, and past the end of a mark. -/
@[elab_as_elim]
theorem read_induct {motive : Text → Prop} (done : motive [])
    (char : ∀ c rest, markDigits? (c :: rest) = none → motive rest → motive (c :: rest))
    (mark : ∀ c rest digits, markDigits? (c :: rest) = some digits →
      motive (rest.drop (digits.length + 1)) → motive (c :: rest))
    (t : Text) : motive t := by
  induction hlength : t.length using Nat.strongRecOn generalizing t with
  | ind length ih =>
      subst hlength
      cases t with
      | nil => exact done
      | cons c rest =>
          cases hmark : markDigits? (c :: rest) with
          | none => exact char c rest hmark (ih rest.length (by simp) rest rfl)
          | some digits =>
              have hshort : (rest.drop (digits.length + 1)).length < (c :: rest).length := by
                rw [List.length_drop, List.length_cons]
                omega
              exact mark c rest digits hmark (ih _ hshort _ rfl)

/-! ### One pass of restoring -/

variable {literals : List Text}

theorem restoreOnce_drop (skip : Nat) (t : Text) :
    restoreOnce literals skip t = restoreOnce literals 0 (t.drop skip) := by
  induction t generalizing skip with
  | nil => simp [restoreOnce]
  | cons c cs ih =>
      cases skip with
      | zero => rfl
      | succ skip => exact ih skip

theorem restoreOnce_cons {c : Char} {rest : Text} (hmark : markDigits? (c :: rest) = none) :
    restoreOnce literals 0 (c :: rest) = (restoreOnce literals 0 rest).map (c :: ·) := by
  rw [restoreOnce, hmark]

theorem restoreOnce_markDigits {c : Char} {rest digits : Text}
    (hmark : markDigits? (c :: rest) = some digits) :
    restoreOnce literals 0 (c :: rest) = do
      let literal ← literalAt literals digits
      let others ← restoreOnce literals 0 (rest.drop (digits.length + 1))
      return literal ++ others := by
  rw [restoreOnce, hmark]
  simp only [restoreOnce_drop (digits.length + 1)]

theorem exists_of_restoreOnce_cons {c : Char} {rest out : Text}
    (hmark : markDigits? (c :: rest) = none) (honce : restoreOnce literals 0 (c :: rest) = .ok out) :
    ∃ others, restoreOnce literals 0 rest = .ok others ∧ out = c :: others := by
  rw [restoreOnce_cons hmark] at honce
  obtain ⟨others, hothers, rfl⟩ := exists_of_map_eq_ok honce
  exact ⟨others, hothers, rfl⟩

theorem exists_of_restoreOnce_markDigits {c : Char} {rest digits out : Text}
    (hmark : markDigits? (c :: rest) = some digits)
    (honce : restoreOnce literals 0 (c :: rest) = .ok out) :
    ∃ literal others, literalAt literals digits = .ok literal ∧
      restoreOnce literals 0 (rest.drop (digits.length + 1)) = .ok others ∧
      out = literal ++ others := by
  rw [restoreOnce_markDigits hmark] at honce
  obtain ⟨literal, hliteral, hrest⟩ := exists_of_bind_eq_ok honce
  obtain ⟨others, hothers, hout⟩ := exists_of_bind_eq_ok hrest
  exact ⟨literal, others, hliteral, hothers, (Except.ok.inj hout).symm⟩

/-- What a pass of restoring preserves, all passes together do. -/
theorem restoreTimes_induct {motive : Text → Prop} {literals : List Text} {passes : Nat}
    {t restored : Text} (hrestore : restoreTimes literals passes t = .ok restored) (start : motive t)
    (pass : ∀ t next, restoreOnce literals 0 t = .ok next → motive t → motive next) :
    motive restored := by
  induction passes generalizing t with
  | zero =>
      cases hrestore
      exact start
  | succ passes ih =>
      rw [restoreTimes] at hrestore
      split at hrestore
      next =>
          obtain ⟨next, honce, hlater⟩ := exists_of_bind_eq_ok hrestore
          exact ih hlater (pass t next honce start)
      next =>
          cases hrestore
          exact start

/-- From here on numbers have too many digits to be read. -/
def numberLimit : Nat :=
  Nat.pow 10 digitLimit

/-- A number that can be written within the limit and is in the table names its literal. -/
theorem literalAt_toDigits {number : Nat} {literal : Text}
    (hlimit : number < numberLimit) (hget : literals[number]? = some literal) :
    literalAt literals (Nat.toDigits 10 number) = .ok literal := by
  have hpos : 0 < digitLimit := by decide
  unfold numberLimit at hlimit
  rw [literalAt, decimalValue_toDigits, hget]
  -- The limit stays a variable, for its power of ten is not to be computed.
  generalize digitLimit = limit at hpos hlimit ⊢
  have hlength : (Nat.toDigits 10 number).length ≤ limit :=
    (Nat.length_toDigits_le_iff (by decide) hpos).mpr hlimit
  exact if_neg (Nat.not_lt.mpr hlength)

/-- A number that names a literal is in the table. -/
theorem getElem?_of_literalAt {number : Nat} {literal : Text}
    (hget : literalAt literals (Nat.toDigits 10 number) = .ok literal) :
    literals[number]? = some literal := by
  rw [literalAt, decimalValue_toDigits] at hget
  split at hget
  next => cases hget
  next =>
      split at hget
      next found hfound =>
          cases hget
          exact hfound
      next => cases hget

theorem restoreOnce_mark_append (number : Nat) (rest : Text) :
    restoreOnce literals 0 (mark number ++ rest) = do
      let literal ← literalAt literals (Nat.toDigits 10 number)
      let others ← restoreOnce literals 0 rest
      return literal ++ others := by
  have hdigits : markDigits? (mark number ++ rest) = some (Nat.toDigits 10 number) :=
    markDigits?_mark number rest
  have hdrop : (Nat.toDigits 10 number ++ markClose :: rest).drop
      ((Nat.toDigits 10 number).length + 1) = rest := by
    rw [← List.drop_drop, List.drop_left]
    rfl
  rw [mark_append] at hdigits ⊢
  rw [restoreOnce_markDigits hdigits, hdrop]

theorem restoreOnce_mark {number : Nat} {literal rest : Text} (hlimit : number < numberLimit)
    (hget : literals[number]? = some literal) :
    restoreOnce literals 0 (mark number ++ rest) =
      (restoreOnce literals 0 rest).map (literal ++ ·) := by
  rw [restoreOnce_mark_append, literalAt_toDigits hlimit hget]
  cases restoreOnce literals 0 rest <;> rfl

/-- A pass that does not fail puts a literal in the place of every mark. -/
theorem exists_of_restoreOnce_mark {number : Nat} {rest out : Text}
    (honce : restoreOnce literals 0 (mark number ++ rest) = .ok out) :
    ∃ literal others, literals[number]? = some literal ∧
      restoreOnce literals 0 rest = .ok others ∧ out = literal ++ others := by
  rw [restoreOnce_mark_append] at honce
  obtain ⟨literal, hliteral, hrest⟩ := exists_of_bind_eq_ok honce
  obtain ⟨others, hothers, hout⟩ := exists_of_bind_eq_ok hrest
  exact ⟨literal, others, getElem?_of_literalAt hliteral, hothers, (Except.ok.inj hout).symm⟩

end Literal

end SourceLayout
