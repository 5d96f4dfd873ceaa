import SourceLayout.Proofs.Literal.Parts

/-!
# Argument lists of types

An argument list after a word is cut out with its last angle bracket if it consists of the characters
that a list may hold. The span may start at an earlier bracket, but it ends with that one. A list with
another character after which no bracket follows is not cut out up to its own bracket: no span goes
beyond that character.
-/

namespace SourceLayout.Literal

variable {family : Family} {find : Finder} {before u v : Text}

/-! ### Lists that are cut out -/

theorem typeList_le (before t : Text) : typeList before t ≤ t.length := by
  cases hfind : typeList before t with
  | zero => exact Nat.zero_le _
  | succ n =>
      obtain ⟨inner, others, rfl, rfl, _⟩ := typeList_cases hfind
      simp

theorem typeList_of_ne {c : Char} (hc : c ≠ '<') (before cs : Text) :
    typeList before (c :: cs) = 0 := by
  unfold typeList
  split
  next heq => exact absurd (List.cons.inj heq).1 hc
  next => rfl

theorem typeList_cons (before cs : Text) : typeList before ('<' :: cs) =
    if headIs isWord before || afterTemplate before then
      let inner := (cs.takeWhile isTypeListChar).reverse.dropWhile (· ≠ '>')
      if inner.isEmpty then 0 else inner.length + 1
    else 0 :=
  rfl

theorem typeList_le_takeWhile (before cs : Text) :
    typeList before ('<' :: cs) ≤ (cs.takeWhile isTypeListChar).length + 1 := by
  have hshort := (List.dropWhile_suffix (l := (cs.takeWhile isTypeListChar).reverse)
    (· ≠ '>')).length_le
  rw [List.length_reverse] at hshort
  rw [typeList_cons]
  simp only
  split
  · split
    · exact Nat.zero_le _
    · exact Nat.succ_le_succ hshort
  · exact Nat.zero_le _

theorem takeWhile_of_not_all {p : Char → Bool} {t : Text} (ht : t.all p = false) (rest : Text) :
    (t ++ rest).takeWhile p = t.takeWhile p := by
  induction t with
  | nil => cases ht
  | cons c cs ih =>
      rw [List.cons_append, List.takeWhile_cons, List.takeWhile_cons]
      split
      next hc =>
          rw [List.all_cons, hc, Bool.true_and] at ht
          rw [ih ht]
      next => rfl

/-- A list goes up to its last bracket. -/
theorem typeList_bracket {inner rest : Text} (hinner : inner.all isTypeListChar = true)
    (hopen : (headIs isWord before || afterTemplate before) = true)
    (hrest : '>' ∉ rest.takeWhile isTypeListChar) :
    typeList before ('<' :: (inner ++ '>' :: rest)) = inner.length + 2 := by
  have hbracket : isTypeListChar '>' = true := by decide
  have hrun : (inner ++ '>' :: rest).takeWhile isTypeListChar =
      inner ++ '>' :: rest.takeWhile isTypeListChar := by
    rw [List.takeWhile_append_of_pos (List.all_eq_true.mp hinner), List.takeWhile_cons, hbracket,
      if_pos rfl]
  have hdrop : (rest.takeWhile isTypeListChar).reverse.dropWhile (fun c => decide (c ≠ '>')) = [] := by
    rw [List.dropWhile_eq_nil_iff]
    intro c hc
    rw [decide_eq_true_eq]
    rintro rfl
    exact hrest (List.mem_reverse.mp hc)
  rw [typeList_cons, if_pos hopen, hrun, List.reverse_append, List.reverse_cons, List.append_assoc,
    List.dropWhile_append, hdrop]
  simp

/-- A span that starts before a list ends before it or with its last bracket. -/
theorem typeList_before {cs inner rest : Text} {n : Nat} (hinner : inner.all isTypeListChar = true)
    (hrest : '>' ∉ rest.takeWhile isTypeListChar)
    (hfind : typeList before ('<' :: (cs ++ '<' :: (inner ++ '>' :: rest))) = n + 1) :
    n ≤ cs.length ∧ cs.all isTypeListChar = false ∨
      n = (cs ++ '<' :: inner).length + 1 ∧ cs.all isTypeListChar = true := by
  cases hcs : cs.all isTypeListChar with
  | false =>
      have hshort := typeList_le_takeWhile before (cs ++ '<' :: (inner ++ '>' :: rest))
      rw [hfind, takeWhile_of_not_all hcs] at hshort
      exact .inl ⟨Nat.le_trans (Nat.le_of_succ_le_succ hshort)
        (List.takeWhile_sublist isTypeListChar).length_le, rfl⟩
  | true =>
      have hopen : (headIs isWord before || afterTemplate before) = true := by
        by_contra hclosed
        rw [typeList_cons, if_neg hclosed] at hfind
        cases hfind
      have hbracket : isTypeListChar '<' = true := by decide
      have hall : (cs ++ '<' :: inner).all isTypeListChar = true := by
        simp only [List.all_append, List.all_cons, hcs, hbracket, hinner, Bool.and_self]
      have hlength := @typeList_bracket before _ _ hall hopen hrest
      rw [List.append_assoc, List.cons_append, hfind] at hlength
      exact .inr ⟨by omega, rfl⟩

theorem not_mem_of_typeList_eq_zero {cs : Text}
    (hopen : (headIs isWord before || afterTemplate before) = true)
    (hnone : typeList before ('<' :: cs) = 0) : '>' ∉ cs.takeWhile isTypeListChar := by
  rw [typeList_cons, if_pos hopen] at hnone
  simp only at hnone
  split at hnone
  next hempty =>
      rw [List.isEmpty_iff, List.dropWhile_eq_nil_iff] at hempty
      intro hmem
      simpa using hempty '>' (List.mem_reverse.mpr hmem)
  next => cases hnone

/-- Where no list is found none is in a shorter text. -/
theorem typeList_eq_zero_of_append {t w : Text} (hnone : typeList before (t ++ w) = 0) :
    typeList before t = 0 := by
  cases hfind : typeList before t with
  | zero => rfl
  | succ n =>
      obtain ⟨inner, others, rfl, rfl, hinner⟩ := typeList_cases hfind
      have hopen : (headIs isWord before || afterTemplate before) = true := by
        by_contra hclosed
        rw [typeList_cons, if_neg hclosed] at hfind
        cases hfind
      have hnone' := not_mem_of_typeList_eq_zero hopen hnone
      have hspan : ∀ c ∈ inner ++ ['>'], isTypeListChar c = true := by
        intro c hc
        rcases List.mem_append.mp hc with hc | hc
        · exact hinner c hc
        · rw [List.mem_singleton.mp hc]
          decide
      refine absurd ?_ hnone'
      have hsplit : inner ++ '>' :: others ++ w = inner ++ ['>'] ++ (others ++ w) := by simp
      change '>' ∈ (inner ++ '>' :: others ++ w).takeWhile isTypeListChar
      rw [hsplit, List.takeWhile_append_of_pos hspan]
      simp

/-- An argument list of types after a word is cut out with its last bracket, alone or at the end of a
longer span. -/
theorem typeList_covers {inner rest : Text} (hinner : inner.all isTypeListChar = true)
    (hrest : '>' ∉ rest.takeWhile isTypeListChar)
    (hword : headIs isWord (u.reverse ++ before) = true) :
    ∃ front start, u = front ++ start ∧ start.all isTypeListChar = true ∧
      typeList.Splits before front (start ++ '<' :: (inner ++ '>' :: rest)) ∧
      typeList (front.reverse ++ before) (start ++ '<' :: (inner ++ '>' :: rest)) =
        (start ++ '<' :: inner).length + 1 := by
  induction hlength : u.length using Nat.strongRecOn generalizing before u with
  | ind length ih =>
      cases u with
      | nil =>
          refine ⟨[], [], rfl, rfl, .nil, typeList_bracket hinner ?_ hrest⟩
          rw [List.reverse_nil, List.nil_append] at hword
          rw [List.reverse_nil, List.nil_append, hword, Bool.true_or]
      | cons c cs =>
          rw [List.length_cons] at hlength
          cases hfind : typeList before (c :: (cs ++ '<' :: (inner ++ '>' :: rest))) with
          | zero =>
              obtain ⟨front, start, rfl, hstart, hsplits, hcovers⟩ :=
                @ih cs.length (by omega) (c :: before) cs (by simpa using hword) rfl
              refine ⟨c :: front, start, rfl, hstart, .char ?_ ?_ hsplits, by simpa using hcovers⟩
              · rw [List.append_assoc, ← List.cons_append] at hfind
                exact typeList_eq_zero_of_append hfind
              · rw [← hfind, List.append_assoc]
          | succ n =>
              obtain rfl : c = '<' := by
                by_contra hc
                rw [typeList_of_ne hc] at hfind
                cases hfind
              rcases typeList_before hinner hrest hfind with ⟨hn, hcs⟩ | ⟨rfl, hcs⟩
              · obtain ⟨front, start, hdrop, hstart, hsplits, hcovers⟩ :=
                  @ih (cs.drop n).length (by rw [List.length_drop]; omega)
                    (('<' :: cs.take n).reverse ++ before) (cs.drop n) (by
                      rw [← List.append_assoc, ← List.reverse_append, List.cons_append,
                        List.take_append_drop]
                      exact hword) rfl
                have hsplit : cs = cs.take n ++ front ++ start := by
                  rw [List.append_assoc, ← hdrop, List.take_append_drop]
                have hpiece : ('<' :: cs.take n).length = n + 1 := by
                  simp only [List.length_cons, List.length_take]
                  omega
                have hfront : (cs.take n ++ front).all isTypeListChar = false := by
                  rwa [hsplit, List.all_append, hstart, Bool.and_true] at hcs
                have hrun := (congrArg (List.takeWhile isTypeListChar) hsplit).trans
                  (takeWhile_of_not_all hfront start)
                refine ⟨'<' :: cs.take n ++ front, start, by rw [List.cons_append, List.cons_append,
                  ← hsplit], hstart, .span (by simp) ?_ ?_ hsplits, by simpa using hcovers⟩
                · rw [hpiece, ← hfind, List.cons_append, typeList_cons, typeList_cons,
                    takeWhile_of_not_all hcs, hrun]
                · rw [hpiece, ← hfind, List.cons_append, ← List.append_assoc front,
                    ← List.append_assoc (cs.take n), ← List.append_assoc (cs.take n), ← hsplit]
              · refine ⟨[], '<' :: cs, rfl, ?_, .nil, ?_⟩
                · rw [List.all_cons, hcs, Bool.and_true]
                  decide
                · rw [List.reverse_nil, List.nil_append, List.cons_append, hfind]
                  rfl

/-! ### Lists that are not cut out -/

/-- Whether after every angle bracket there is a character that no list holds. -/
def isBlunt : Text → Bool
  | [] => true
  | c :: cs => (!(c == '<' || c == '>') || !cs.all isTypeListChar) && isBlunt cs

theorem isBlunt_cons {c : Char} {cs : Text} : isBlunt (c :: cs) = true ↔
    (c = '<' ∨ c = '>' → cs.all isTypeListChar = false) ∧ isBlunt cs = true := by
  simp only [isBlunt, Bool.and_eq_true, Bool.or_eq_true, Bool.not_eq_true', Bool.or_eq_false_iff,
    beq_eq_false_iff_ne, ne_eq, and_congr_left_iff]
  intro _
  grind

theorem isBlunt_of_append {front t : Text} (h : isBlunt (front ++ t) = true) : isBlunt t = true := by
  induction front with
  | nil => exact h
  | cons c cs ih => exact ih (isBlunt_cons.mp h).2

/-- A bracket before a list that goes on with another character stands before that as well. -/
theorem isBlunt_append (front : Text) {list : Text} (h : isBlunt ('<' :: list) = true) :
    isBlunt (front ++ '<' :: list) = true := by
  obtain ⟨hbracket, _⟩ := isBlunt_cons.mp h
  induction front with
  | nil => exact h
  | cons c cs ih =>
      have hlist : (cs ++ '<' :: list).all isTypeListChar = false := by
        simp only [List.all_append, List.all_cons, hbracket (.inl rfl), Bool.and_false]
      exact isBlunt_cons.mpr ⟨fun _ => hlist, ih⟩

theorem headIs_reverse_of_isBlunt (h : isBlunt u = true) : headIs (· == '>') u.reverse = false := by
  rw [Bool.eq_false_iff]
  intro hbracket
  obtain ⟨c, hlast, hsign⟩ := (headIs_reverse_eq _ _).mp hbracket
  obtain rfl : c = '>' := beq_iff_eq.mp hsign
  obtain ⟨front, rfl⟩ := List.getLast?_eq_some_iff.mp hlast
  exact absurd ((isBlunt_cons.mp (isBlunt_of_append h)).1 (.inr rfl)) (by simp)

theorem isTypeListChar_markOpen : isTypeListChar markOpen = false := by
  decide +kernel

theorem not_all_mark_append (number : Nat) (t : Text) :
    (mark number ++ t).all isTypeListChar = false := by
  rw [mark_append, List.all_cons, isTypeListChar_markOpen, Bool.false_and]

/-- No run takes all characters away that no list holds. -/
theorem not_all_maskFrom (find : Finder) (before : Text) {t : Text}
    (ht : t.all isTypeListChar = false) (literals : List Text) :
    (find.maskFrom before 0 t literals).text.all isTypeListChar = false := by
  induction before, t using Finder.scan_induct find with
  | done before => cases ht
  | passed before c cs hfind ih =>
      rw [Finder.maskFrom_cons hfind, Masked.prepend_text, List.singleton_append, List.all_cons,
        Bool.and_eq_false_iff]
      rw [List.all_cons, Bool.and_eq_false_iff] at ht
      exact ht.imp_right ih
  | found before c cs n hfind _ =>
      rw [Finder.maskFrom_span hfind, Masked.prepend_text]
      exact not_all_mark_append _ _

theorem isBlunt_maskFrom (find : Finder) (before : Text) {t : Text} (h : isBlunt t = true)
    (literals : List Text) : isBlunt (find.maskFrom before 0 t literals).text = true := by
  have hmark : ∀ {front t : Text}, (∀ c ∈ front, isForeign c = false) → isBlunt t = true →
      isBlunt (front ++ t) = true := by
    intro front t hfront ht
    induction front with
    | nil => exact ht
    | cons c cs ih =>
        obtain ⟨hc, hcs⟩ := List.forall_mem_cons.mp hfront
        refine isBlunt_cons.mpr ⟨?_, ih hcs⟩
        rintro (rfl | rfl) <;> exact absurd hc (by decide)
  induction before, t using Finder.scan_induct find generalizing literals with
  | done before => rfl
  | passed before c cs hfind ih =>
      obtain ⟨hc, hcs⟩ := isBlunt_cons.mp h
      rw [Finder.maskFrom_cons hfind]
      exact isBlunt_cons.mpr ⟨fun hbracket => not_all_maskFrom find _ (hc hbracket) _, ih hcs _⟩
  | found before c cs n hfind ih =>
      obtain ⟨_, hcs⟩ := isBlunt_cons.mp h
      have hdrop : isBlunt (cs.drop n) = true :=
        @isBlunt_of_append (cs.take n) _ (by rwa [List.take_append_drop])
      rw [Finder.maskFrom_span hfind]
      exact hmark (fun c hc => isForeign_of_mem_mark hc) (ih hdrop _)

theorem typeList_splits (h : isBlunt u = true) (before v : Text) : typeList.Splits before u v := by
  refine Finder.splits_of_forall (fun before t hne ht => ⟨?_, typeList_le before t⟩) before
  obtain ⟨front, rfl⟩ := ht
  cases t with
  | nil => exact absurd rfl hne
  | cons c cs =>
      by_cases hc : c = '<'
      · subst hc
        have hrun := takeWhile_of_not_all ((isBlunt_cons.mp (isBlunt_of_append h)).1 (.inl rfl)) v
        rw [List.cons_append, typeList_cons, typeList_cons, hrun]
      · rw [List.cons_append, typeList_of_ne hc, typeList_of_ne hc]

theorem typeList_passes {stretch : Text} (hstretch : '<' ∉ stretch) (before rest : Text) :
    typeList.Passes before stretch rest :=
  fun literals => Finder.maskFrom_of_forall
    (fun _ hc _ _ => typeList_of_ne (fun heq => hstretch (heq ▸ hc)) _ _) before rest literals

end SourceLayout.Literal
