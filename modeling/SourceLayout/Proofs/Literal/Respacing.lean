import SourceLayout.Proofs.Literal.Mark

/-!
# Restoring a text that was spaced anew

In a masked text a mark belongs to the word it stands in, so a mark never runs over the end of a
token. Restoring therefore works token by token: two masked texts with the same tokens are restored
to texts with the same tokens, or both fail on the same mark. Nothing is asked of the texts here;
they may hold marks that no masking has put there.
-/

namespace SourceLayout

theorem isDecimal_of_isBlank (c : Char) (hblank : isBlank c = true) : isDecimal c = false := by
  rw [← Char.ofNat_toNat c]
  simp only [isBlank, decide_eq_true_eq] at hblank
  generalize c.toNat = point at hblank
  clear c
  revert point
  decide +kernel

/-- Words of a masked text: whatever marks are made of belongs to them. -/
def WordClass.marked : WordClass where
  has c := isWord c || isDecimal c || c == Literal.markOpen || c == Literal.markClose
  isBlank_eq_false := by
    intro c hword
    cases hblank : isBlank c with
    | false => rfl
    | true =>
        simp only [isWord_of_isBlank c hblank, isDecimal_of_isBlank c hblank, Bool.false_or,
          Bool.or_eq_true, beq_iff_eq] at hword
        rcases hword with rfl | rfl <;> exact absurd hblank (by decide)

theorem WordClass.marked_of_plain (c : Char) (hword : WordClass.plain.has c = true) :
    WordClass.marked.has c = true := by
  have hplain : isWord c = true := hword
  simp [WordClass.marked, hplain]

namespace Literal

open Text (tokens Separated Tokenized)

theorem marked_markOpen : WordClass.marked.has markOpen = true := by
  simp [WordClass.marked]

theorem marked_markClose : WordClass.marked.has markClose = true := by
  simp [WordClass.marked]

theorem marked_of_isDecimal {c : Char} (hdecimal : isDecimal c = true) :
    WordClass.marked.has c = true := by
  simp [WordClass.marked, hdecimal]

theorem head?_ne_markClose {t : Text} (hhead : headIs WordClass.marked.has t = false) :
    t.head? ≠ some markClose := by
  cases t with
  | nil => simp
  | cons c cs =>
      rintro hc
      obtain rfl : c = markClose := by simpa using hc
      simp [marked_markClose] at hhead

theorem takeWhile_isDecimal_eq_nil {t : Text} (hhead : headIs WordClass.marked.has t = false) :
    t.takeWhile isDecimal = [] ∧ t.dropWhile isDecimal = t := by
  cases t with
  | nil => exact ⟨rfl, rfl⟩
  | cons c cs =>
      have hc : isDecimal c = false := by
        cases hdecimal : isDecimal c with
        | false => rfl
        | true => simp [marked_of_isDecimal hdecimal] at hhead
      simp [hc]

theorem headIs_reverse_of_forall {p : Char → Bool} {t : Text} (hne : t ≠ [])
    (hall : ∀ c ∈ t, p c = true) : headIs p t.reverse = true := by
  cases hreverse : t.reverse with
  | nil => exact absurd (List.reverse_eq_nil_iff.mp hreverse) hne
  | cons c cs => exact hall c (List.mem_reverse.mp (hreverse ▸ List.mem_cons_self))

/-- Whether a mark starts a text is decided by the first part of it, if no word runs out of it. -/
theorem markDigits?_append {left right : Text} (hne : left ≠ [])
    (hsep : Separated .marked left right) : markDigits? (left ++ right) = markDigits? left := by
  cases left with
  | nil => exact absurd rfl hne
  | cons c left =>
      by_cases hc : c = markOpen
      · subst hc
        have hsplit : left.takeWhile isDecimal ++ left.dropWhile isDecimal = left :=
          List.takeWhile_append_dropWhile
        have hdigits : ∀ d ∈ left.takeWhile isDecimal, isDecimal d = true :=
          List.all_eq_true.mp List.all_takeWhile
        have hhead := List.head?_dropWhile_not isDecimal left
        cases hdrop : left.dropWhile isDecimal with
        | nil =>
            -- The mark would have to be closed by the text after it.
            rw [hdrop, List.append_nil] at hsplit
            rw [hsplit] at hdigits
            have hword : ∀ d ∈ markOpen :: left, WordClass.marked.has d = true := by
              intro d hd
              rcases List.mem_cons.mp hd with rfl | hd
              · exact marked_markOpen
              · exact marked_of_isDecimal (hdigits d hd)
            have hright := hsep (headIs_reverse_of_forall (by simp) hword)
            obtain ⟨htake, hdropRight⟩ := takeWhile_isDecimal_eq_nil hright
            simp [markDigits?, List.takeWhile_append_of_pos hdigits,
              List.dropWhile_append_of_pos hdigits, htake, hdropRight, hsplit, hdrop,
              head?_ne_markClose hright]
        | cons d ds =>
            rw [hdrop] at hhead
            have hd : isDecimal d = false := by simpa using hhead
            generalize left.takeWhile isDecimal = digits at hsplit hdigits
            rw [hdrop] at hsplit
            subst hsplit
            simp [markDigits?, List.takeWhile_append_of_pos hdigits,
              List.dropWhile_append_of_pos hdigits, hd]
      · rw [List.cons_append, markDigits?_cons_of_ne hc, markDigits?_cons_of_ne hc]

variable {literals : List Text}

theorem length_lt_of_markDigits? {c : Char} {rest digits : Text}
    (hmark : markDigits? (c :: rest) = some digits) : digits.length < rest.length := by
  simp only [markDigits?, Option.ite_none_right_eq_some, Option.some.injEq] at hmark
  obtain ⟨⟨_, _, hclose⟩, rfl⟩ := hmark
  have hsplit : rest.takeWhile isDecimal ++ rest.dropWhile isDecimal = rest :=
    List.takeWhile_append_dropWhile
  have hlength := congrArg List.length hsplit
  rw [List.length_append] at hlength
  cases hdrop : rest.dropWhile isDecimal with
  | nil => simp [hdrop] at hclose
  | cons d ds =>
      rw [hdrop, List.length_cons] at hlength
      omega

/-- One pass works on separated parts one by one. -/
theorem restoreOnce_append {left right : Text} (hsep : Separated .marked left right) :
    restoreOnce literals 0 (left ++ right) = (do
      let restored ← restoreOnce literals 0 left
      let others ← restoreOnce literals 0 right
      return restored ++ others) := by
  induction left using read_induct with
  | done =>
      simp only [restoreOnce, List.nil_append]
      cases restoreOnce literals 0 right <;> rfl
  | char c left hmark ih =>
      have hsame := markDigits?_append (by simp) hsep
      rw [hmark, List.cons_append] at hsame
      rw [List.cons_append, restoreOnce_cons hsame, restoreOnce_cons hmark, ih hsep.of_cons]
      cases restoreOnce literals 0 left <;> cases restoreOnce literals 0 right <;> rfl
  | mark c left digits hmark ih =>
      have hsame := markDigits?_append (by simp) hsep
      rw [hmark, List.cons_append] at hsame
      have hshort := length_lt_of_markDigits? hmark
      rw [List.cons_append, restoreOnce_markDigits hsame, restoreOnce_markDigits hmark,
        List.drop_append_of_le_length (by omega), ih (hsep.of_cons.drop _)]
      simp only [bind_assoc, pure_bind, List.append_assoc]

/-- Restored parts are as separated as the parts were. -/
theorem separated_of_restoreOnce {left right left' right' : Text}
    (hsep : Separated .marked left right) (hleft : restoreOnce literals 0 left = .ok left')
    (hright : restoreOnce literals 0 right = .ok right') : Separated .marked left' right' := by
  cases hlast : headIs WordClass.marked.has left.reverse with
  | true =>
      -- What follows starts with no word, and so with no mark.
      refine Separated.of_head ?_ left'
      have hhead := hsep hlast
      cases right with
      | nil =>
          cases hright
          rfl
      | cons c cs =>
          have hc : c ≠ markOpen := by
            rintro rfl
            simp [marked_markOpen] at hhead
          obtain ⟨tail, _, rfl⟩ :=
            exists_of_restoreOnce_cons (markDigits?_cons_of_ne hc cs) hright
          exact hhead
  | false =>
      refine Separated.of_last ?_ right'
      cases hreverse : left.reverse with
      | nil =>
          obtain rfl := List.reverse_eq_nil_iff.mp hreverse
          cases hleft
          rfl
      | cons c cs =>
          -- The last character is no part of a mark and stays the last one.
          obtain rfl : left = cs.reverse ++ [c] := by
            rw [← List.reverse_cons, ← hreverse, List.reverse_reverse]
          rw [hreverse, headIs_cons] at hlast
          have hc : c ≠ markOpen := by
            rintro rfl
            simp [marked_markOpen] at hlast
          rw [restoreOnce_append (Separated.of_head (by simpa using hlast) _),
            restoreOnce_cons (markDigits?_cons_of_ne hc [])] at hleft
          obtain ⟨front, _, hleft⟩ := exists_of_bind_eq_ok hleft
          cases hleft
          simpa using hlast

/-- The tokens of the restored text, token by token. -/
def restoreTokens (literals : List Text) : List Text → Except RestoreError (List Text)
  | [] => .ok []
  | tok :: toks => do
      let restored ← restoreOnce literals 0 tok
      let others ← restoreTokens literals toks
      return tokens .marked restored ++ others

theorem restoreOnce_tokens (t : Text) :
    (restoreOnce literals 0 t).map (tokens .marked) =
      restoreTokens literals (tokens .marked t) := by
  have htokens := Text.tokenized .marked t
  generalize tokens .marked t = toks at htokens
  induction htokens with
  | nil => rfl
  | @blank c t toks hblank _ ih =>
      have hc : c ≠ markOpen := by
        rintro rfl
        exact absurd hblank (by decide)
      rw [restoreOnce_cons (markDigits?_cons_of_ne hc t), ← ih]
      cases restoreOnce literals 0 t with
      | error error => rfl
      | ok restored => simp [Except.map, Text.tokens_blank_cons hblank]
  | @token tok t toks _ hsep _ ih =>
      rw [restoreOnce_append hsep, restoreTokens, ← ih]
      cases htok : restoreOnce literals 0 tok with
      | error error => rfl
      | ok restored =>
          cases hrest : restoreOnce literals 0 t with
          | error error => rfl
          | ok others =>
              have hsep' := separated_of_restoreOnce hsep htok hrest
              simp [bind, Except.bind, pure, Except.pure, Except.map, Text.tokens_append hsep']

theorem mem_markOpen_iff_of_tokens_eq {t t' : Text}
    (htokens : tokens .marked t = tokens .marked t') : markOpen ∈ t ↔ markOpen ∈ t' := by
  have hlacks : ∀ u : Text, Text.Lacks [markOpen] u ↔ markOpen ∉ u := by
    intro u
    simp only [Text.Lacks, List.mem_singleton]
    exact ⟨fun h hmem => h _ hmem rfl, fun h c hc heq => h (heq ▸ hc)⟩
  have hblank : ∀ c ∈ [markOpen], isBlank c = false := List.forall_mem_singleton.mpr (by decide)
  have hsame : Text.Lacks [markOpen] t ↔ Text.Lacks [markOpen] t' := by
    rw [Text.lacks_iff_tokens hblank, htokens, ← Text.lacks_iff_tokens hblank]
  rw [hlacks, hlacks] at hsame
  exact Decidable.not_iff_not.mp hsame

theorem restoreTimes_tokens (passes : Nat) {t t' : Text}
    (htokens : tokens .marked t = tokens .marked t') :
    (restoreTimes literals passes t).map (tokens .marked) =
      (restoreTimes literals passes t').map (tokens .marked) := by
  induction passes generalizing t t' with
  | zero => simp [restoreTimes, Except.map, htokens]
  | succ passes ih =>
      have hmem := mem_markOpen_iff_of_tokens_eq htokens
      have honce : (restoreOnce literals 0 t).map (tokens .marked) =
          (restoreOnce literals 0 t').map (tokens .marked) := by
        rw [restoreOnce_tokens, restoreOnce_tokens, htokens]
      by_cases hmark : markOpen ∈ t
      · rw [restoreTimes, if_pos hmark, restoreTimes, if_pos (hmem.mp hmark)]
        cases ht : restoreOnce literals 0 t <;> cases ht' : restoreOnce literals 0 t' <;>
          simp only [ht, ht', Except.map, Except.ok.injEq, Except.error.injEq, reduceCtorEq] at honce
        · rw [honce]
        · exact ih honce
      · rw [restoreTimes, if_neg hmark, restoreTimes, if_neg (mt hmem.mpr hmark)]
        simp [Except.map, htokens]

/-- Restoring sees the tokens of a masked text only. -/
theorem restore_tokens (literals : List Text) {t t' : Text}
    (htokens : tokens .marked t = tokens .marked t') :
    (restore ⟨t, literals⟩).map (tokens .marked) =
      (restore ⟨t', literals⟩).map (tokens .marked) :=
  restoreTimes_tokens _ htokens

end Literal

end SourceLayout
