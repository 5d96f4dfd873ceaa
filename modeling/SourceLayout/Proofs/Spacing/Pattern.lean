import SourceLayout.Proofs.Token
import SourceLayout.Spacing.Part

/-!
# Patterns that keep the tokens

A pattern may change a gap to any width where the gap touches a point of the pattern itself, and it
may narrow a gap that stays one. `Pattern.isSafe` checks this part by part. A pattern that passes
keeps the tokens of every text it is applied to, whatever its conditions ask of the surroundings.

Texts that lack some characters give a pattern fewer ways to match, so the check knows which
characters are absent.
-/

namespace SourceLayout.Spacing

open Text (tokens Respaced Lacks)

/-- Whether one of some characters keeps a text from occurring. -/
def isRuledOut (absent : Text) (t : Text) : Bool :=
  t.any absent.contains

theorem isRuledOut_of_lacks {absent t : Text} (hlacks : Lacks absent t) :
    isRuledOut absent t = false := by
  simpa [isRuledOut, Lacks] using hlacks

variable (words : WordClass) (absent : Text)

def startsInPoint (choice : Text) : Bool :=
  isRuledOut absent choice || headIs words.isPoint choice

def endsInPoint (choice : Text) : Bool :=
  isRuledOut absent choice || headIs words.isPoint choice.reverse

/-- Whether the first thing a pattern writes is a point. -/
def Pattern.opensInPoint : Pattern → Bool
  | .look _ :: parts => Pattern.opensInPoint parts
  | .token choices :: _ => choices.all (startsInPoint words absent)
  | _ => false

/-- Whether every gap of a pattern may be respaced, when the pattern comes after a point or not. -/
def Pattern.isSafe (afterPoint : Bool) : Pattern → Bool
  | [] => true
  | .look _ :: parts => Pattern.isSafe afterPoint parts
  | .gap least spaced :: parts =>
      (afterPoint || Pattern.opensInPoint words absent parts || (0 < least && spaced)) &&
        Pattern.isSafe false parts
  | .space :: parts =>
      (afterPoint || Pattern.opensInPoint words absent parts) && Pattern.isSafe false parts
  | .token choices :: parts => Pattern.isSafe (choices.all (endsInPoint words absent)) parts
  | .run _ _ :: parts => Pattern.isSafe false parts

variable {words absent}

/-! ### What a pattern reads and writes -/

/-- What a part can read and write where these texts stand before it and after what it reads. -/
inductive Part.Matches (before rest : Text) : Part → (read written : Text) → Prop
  | look {holds : Text → Text → Bool} (hholds : holds before rest = true) :
      Matches before rest (.look holds) [] []
  | gap {least : Nat} {spaced : Bool} {blanks : Text} (hblanks : blanks.all isBlank = true)
      (hleast : least ≤ blanks.length) (hrest : headIs isBlank rest = false) :
      Matches before rest (.gap least spaced) blanks (if spaced then [' '] else [])
  | space : Matches before rest .space [' '] []
  | token {choices : List Text} {choice : Text} (hchoice : choice ∈ choices) :
      Matches before rest (.token choices) choice choice
  | run {member : Char → Bool} {except : List Text} {word : Text}
      (hword : ∀ c ∈ word, member c = true) (hne : word ≠ []) (hexcept : word ∉ except)
      (hrest : headIs member rest = false) : Matches before rest (.run member except) word word

/-- What the parts of a pattern can read and write, one after the other. -/
inductive Pattern.Matches (rest : Text) : (before : Text) → Pattern → (read written : Text) → Prop
  | nil {before : Text} : Matches rest before [] [] []
  | cons {before read written read' written' : Text} {part : Part} {parts : Pattern}
      (hfirst : part.Matches before (read' ++ rest) read written)
      (hothers : Matches rest (read.reverse ++ before) parts read' written') :
      Matches rest before (part :: parts) (read ++ read') (written ++ written')

theorem Part.exists_matches {before t : Text} {part : Part} {m : Match}
    (hmatch : part.match? before t = some m) :
    ∃ rest, t = m.read ++ rest ∧ part.Matches before rest m.read m.written := by
  cases part with
  | look holds =>
      simp only [Part.match?, Option.ite_none_right_eq_some, Option.some.injEq] at hmatch
      obtain ⟨hholds, rfl⟩ := hmatch
      exact ⟨t, rfl, .look hholds⟩
  | gap least spaced =>
      simp only [Part.match?, Option.ite_none_right_eq_some, Option.some.injEq] at hmatch
      obtain ⟨hleast, rfl⟩ := hmatch
      exact ⟨_, List.takeWhile_append_dropWhile.symm,
        .gap List.all_takeWhile hleast (Text.headIs_dropWhile isBlank t)⟩
  | space =>
      simp only [Part.match?] at hmatch
      split at hmatch
      next cs =>
          cases hmatch
          exact ⟨cs, rfl, .space⟩
      next => cases hmatch
  | token choices =>
      simp only [Part.match?, Option.map_eq_some_iff] at hmatch
      obtain ⟨choice, hfind, rfl⟩ := hmatch
      have hfront := List.find?_some hfind
      obtain ⟨rest, hrest⟩ := List.isPrefixOf_iff_prefix.mp hfront
      exact ⟨rest, hrest.symm, .token (List.mem_of_find?_eq_some hfind)⟩
  | run member except =>
      simp only [Part.match?, Option.ite_none_left_eq_some, Option.some.injEq, Bool.or_eq_true,
        not_or, List.isEmpty_iff, List.contains_iff_mem] at hmatch
      obtain ⟨⟨hne, hexcept⟩, rfl⟩ := hmatch
      exact ⟨_, List.takeWhile_append_dropWhile.symm,
        .run (List.all_eq_true.mp List.all_takeWhile) hne hexcept
          (Text.headIs_dropWhile member t)⟩

theorem Pattern.exists_matches {before t : Text} {pattern : Pattern} {m : Match}
    (hmatch : Pattern.match? before t pattern = some m) :
    ∃ rest, t = m.read ++ rest ∧ pattern.Matches rest before m.read m.written := by
  induction pattern generalizing before t m with
  | nil =>
      cases hmatch
      exact ⟨t, rfl, .nil⟩
  | cons part parts ih =>
      simp only [Pattern.match?, Option.bind_eq_bind, Option.bind_eq_some_iff, Option.pure_def,
        Option.some.injEq] at hmatch
      obtain ⟨first, hfirst, others, hothers, rfl⟩ := hmatch
      obtain ⟨back, rfl, hpart⟩ := Part.exists_matches hfirst
      rw [List.drop_left] at hothers
      obtain ⟨rest, rfl, hparts⟩ := ih hothers
      exact ⟨rest, (List.append_assoc ..).symm, .cons hpart hparts⟩

theorem Pattern.matches_of_match? {before rest read written : Text} {pattern : Pattern}
    (hmatch : Pattern.match? before (read ++ rest) pattern = some ⟨read, written⟩) :
    pattern.Matches rest before read written := by
  obtain ⟨rest', hsame, hmatches⟩ := Pattern.exists_matches hmatch
  rwa [List.append_cancel_left hsame]

/-! ### Respacing one place after the other -/

section

variable {pattern : Pattern} {before : Text}

theorem Pattern.respaceFrom_drop (before : Text) (skip : Nat) (t : Text) :
    pattern.respaceFrom before skip t =
      pattern.respaceFrom ((t.take skip).reverse ++ before) 0 (t.drop skip) := by
  induction t generalizing before skip with
  | nil => simp [Pattern.respaceFrom]
  | cons c cs ih =>
      cases skip with
      | zero => rfl
      | succ skip => simp [Pattern.respaceFrom, ih]

theorem Pattern.respaceFrom_match {read rest written : Text} (hne : read ≠ [])
    (hmatch : Pattern.match? before (read ++ rest) pattern = some ⟨read, written⟩) :
    pattern.respaceFrom before 0 (read ++ rest) =
      written ++ pattern.respaceFrom (read.reverse ++ before) 0 rest := by
  cases read with
  | nil => exact absurd rfl hne
  | cons c cs =>
      rw [List.cons_append] at hmatch ⊢
      rw [Pattern.respaceFrom, hmatch]
      simp only [Pattern.respaceFrom_drop (c :: before) cs.length]
      simp

/-- A match that reads nothing is no match. -/
theorem Pattern.respaceFrom_passed {c : Char} {cs : Text}
    (hnone : ∀ m, Pattern.match? before (c :: cs) pattern = some m → m.read = []) :
    pattern.respaceFrom before 0 (c :: cs) = c :: pattern.respaceFrom (c :: before) 0 cs := by
  rw [Pattern.respaceFrom]
  split
  next hsome => cases hnone _ hsome
  next => rfl

theorem Pattern.respaceFrom_cons {c : Char} {cs : Text}
    (hnone : Pattern.match? before (c :: cs) pattern = none) :
    pattern.respaceFrom before 0 (c :: cs) = c :: pattern.respaceFrom (c :: before) 0 cs :=
  Pattern.respaceFrom_passed (by simp [hnone])

/-- A text is respaced match by match, and character by character between the matches. -/
@[elab_as_elim]
theorem Pattern.respaceFrom_induct {motive : Text → Text → Prop} (pattern : Pattern)
    (done : ∀ before, motive before [])
    (found : ∀ before read written rest, read ≠ [] →
      Pattern.match? before (read ++ rest) pattern = some ⟨read, written⟩ →
      motive (read.reverse ++ before) rest → motive before (read ++ rest))
    (passed : ∀ before c cs,
      (∀ m, Pattern.match? before (c :: cs) pattern = some m → m.read = []) →
      motive (c :: before) cs → motive before (c :: cs))
    (before t : Text) : motive before t := by
  induction hlength : t.length using Nat.strongRecOn generalizing before t with
  | ind length ih =>
      subst hlength
      cases t with
      | nil => exact done before
      | cons c cs =>
          by_cases hnone : ∀ m, Pattern.match? before (c :: cs) pattern = some m → m.read = []
          · exact passed before c cs hnone (ih cs.length (by simp) (c :: before) cs rfl)
          · obtain ⟨⟨read, written⟩, hsome⟩ := Classical.not_forall.mp hnone
            obtain ⟨hmatch, hne⟩ := Classical.not_imp.mp hsome
            obtain ⟨rest, hread, _⟩ := Pattern.exists_matches hmatch
            have hshorter : rest.length < (c :: cs).length := by
              rw [hread, List.length_append]
              exact Nat.lt_add_of_pos_left (List.length_pos_iff.mpr hne)
            rw [hread] at hmatch ⊢
            exact found before read written rest hne hmatch
              (ih rest.length hshorter (read.reverse ++ before) rest rfl)

end

/-! ### The tokens -/

theorem Pattern.Matches.exists_point {before rest read written : Text} {pattern : Pattern}
    (hmatch : pattern.Matches rest before read written)
    (hopens : Pattern.opensInPoint words absent pattern = true)
    (hlacks : Lacks absent (read ++ rest)) : ∃ c t, words.isPoint c = true ∧ written = c :: t := by
  induction hmatch with
  | nil => cases hopens
  | @cons _ read _ _ _ _ _ hfirst hothers ih =>
      cases hfirst with
      | look => exact ih hopens hlacks
      | token hchoice =>
          have hstart := List.all_eq_true.mp hopens read hchoice
          rw [List.append_assoc] at hlacks
          rw [startsInPoint, isRuledOut_of_lacks hlacks.of_append_left, Bool.false_or] at hstart
          cases read with
          | nil => cases hstart
          | cons c t => exact ⟨c, _, hstart, rfl⟩
      | gap | space | run => cases hopens

/-- A gap that is respaced touches a point on its left or on its right, or stays a gap. -/
theorem tokens_respace_gap {left old new right : Text} (hold : old.all isBlank = true)
    (hnew : new.all isBlank = true)
    (htouch : headIs words.isPoint left.reverse = true ∨
      (∃ c t, words.isPoint c = true ∧ right = c :: t) ∨ (old ≠ [] ∧ new ≠ [])) :
    tokens words (left ++ old ++ right) = tokens words (left ++ new ++ right) := by
  rcases htouch with hleft | ⟨c, t, hpoint, rfl⟩ | ⟨holdNe, hnewNe⟩
  · cases hreverse : left.reverse with
    | nil => simp [hreverse] at hleft
    | cons c cs =>
        obtain rfl : left = cs.reverse ++ [c] := by
          rw [← List.reverse_cons, ← hreverse, List.reverse_reverse]
        rw [hreverse] at hleft
        simpa using Respaced.point_gap hleft hold hnew cs.reverse right
  · simpa using Respaced.gap_point hpoint hold hnew left t
  · exact Respaced.gap hold hnew holdNe hnewNe left right

/-- After a gap that is respaced the tokens are the same if they are after the gap as it was. -/
theorem tokens_respace_gap_append {left old new read written right : Text}
    (hold : old.all isBlank = true) (hnew : new.all isBlank = true)
    (hothers : tokens words (left ++ old ++ read ++ right) =
      tokens words (left ++ old ++ written ++ right))
    (htouch : headIs words.isPoint left.reverse = true ∨
      (∃ c t, words.isPoint c = true ∧ written = c :: t) ∨ (old ≠ [] ∧ new ≠ [])) :
    tokens words (left ++ (old ++ read) ++ right) =
      tokens words (left ++ (new ++ written) ++ right) := by
  have hright : (∃ c t, words.isPoint c = true ∧ written = c :: t) →
      ∃ c t, words.isPoint c = true ∧ written ++ right = c :: t := by
    rintro ⟨c, t, hpoint, rfl⟩
    exact ⟨c, t ++ right, hpoint, rfl⟩
  calc tokens words (left ++ (old ++ read) ++ right)
      = tokens words (left ++ old ++ written ++ right) := by rw [← List.append_assoc, hothers]
    _ = tokens words (left ++ old ++ (written ++ right)) := by rw [List.append_assoc]
    _ = tokens words (left ++ new ++ (written ++ right)) :=
        tokens_respace_gap hold hnew (htouch.imp_right (Or.imp_left hright))
    _ = tokens words (left ++ (new ++ written) ++ right) := by simp

theorem headIs_reverse_append {p : Char → Bool} {left right : Text}
    (hlast : headIs p right.reverse = true) : headIs p (left ++ right).reverse = true := by
  have hne : right.reverse ≠ [] := by
    intro hnil
    simp [hnil] at hlast
  rw [List.reverse_append, Text.headIs_append hne]
  exact hlast

/-- What a safe pattern writes can stand for what it reads, after any text that ends in a point if
the check was made for a place after one. -/
theorem Pattern.Matches.tokens_eq {before rest read written left right : Text} {pattern : Pattern}
    {afterPoint : Bool} (hmatch : pattern.Matches rest before read written)
    (hsafe : Pattern.isSafe words absent afterPoint pattern = true)
    (hlacks : Lacks absent (read ++ rest))
    (hleft : afterPoint = true → headIs words.isPoint left.reverse = true) :
    tokens words (left ++ read ++ right) = tokens words (left ++ written ++ right) := by
  induction hmatch generalizing left afterPoint with
  | nil => rfl
  | @cons before read written read' written' part parts hfirst hothers ih =>
      rw [List.append_assoc] at hlacks
      have hlacksRest := hlacks.of_append_right
      cases hfirst with
      | look => exact ih hsafe hlacksRest hleft
      | @gap least spaced _ hblanks hleast =>
          simp only [Pattern.isSafe, Bool.and_eq_true, Bool.or_eq_true, decide_eq_true_eq] at hsafe
          obtain ⟨htouch, hparts⟩ := hsafe
          refine tokens_respace_gap_append hblanks ?_ (ih hparts hlacksRest (by simp)) ?_
          · cases spaced <;> rfl
          · rcases htouch with (hafter | hopens) | ⟨hpositive, rfl⟩
            · exact .inl (hleft hafter)
            · exact .inr (.inl (hothers.exists_point hopens hlacksRest))
            · exact .inr (.inr ⟨List.ne_nil_of_length_pos (by omega), by simp⟩)
      | space =>
          simp only [Pattern.isSafe, Bool.and_eq_true, Bool.or_eq_true] at hsafe
          obtain ⟨htouch, hparts⟩ := hsafe
          refine tokens_respace_gap_append (by decide) rfl (ih hparts hlacksRest (by simp)) ?_
          rcases htouch with hafter | hopens
          · exact .inl (hleft hafter)
          · exact .inr (.inl (hothers.exists_point hopens hlacksRest))
      | token hchoice =>
          rw [← List.append_assoc, ← List.append_assoc]
          refine ih hsafe hlacksRest fun hall => ?_
          have hend := List.all_eq_true.mp hall read hchoice
          rw [endsInPoint, isRuledOut_of_lacks hlacks.of_append_left, Bool.false_or] at hend
          exact headIs_reverse_append hend
      | run =>
          rw [← List.append_assoc, ← List.append_assoc]
          exact ih hsafe hlacksRest (by simp)

theorem Pattern.respaceFrom_respaced {pattern : Pattern}
    (hsafe : Pattern.isSafe words absent false pattern = true) (before : Text) {t : Text}
    (hlacks : Lacks absent t) : Respaced words t (pattern.respaceFrom before 0 t) := by
  induction before, t using Pattern.respaceFrom_induct pattern with
  | done before => exact Respaced.refl []
  | found before read written rest hne hmatch ih =>
      have hwritten : Respaced words read written :=
        fun _ _ => (Pattern.matches_of_match? hmatch).tokens_eq hsafe hlacks (by simp)
      rw [Pattern.respaceFrom_match hne hmatch]
      exact hwritten.append (ih hlacks.of_append_right)
  | passed before c cs hnone ih =>
      have hrest : Lacks absent cs := fun a ha => hlacks a (List.mem_cons_of_mem c ha)
      rw [Pattern.respaceFrom_passed hnone]
      exact (ih hrest).cons c

theorem Pattern.respace_respaced {pattern : Pattern}
    (hsafe : Pattern.isSafe words absent false pattern = true) {t : Text}
    (hlacks : Lacks absent t) : Respaced words t (pattern.respace t) :=
  Pattern.respaceFrom_respaced hsafe [] hlacks

/-! ### No new characters -/

theorem Part.Matches.mem_written {before rest read written : Text} {part : Part}
    (hmatch : part.Matches before rest read written) {c : Char} (hc : c ∈ written) :
    c ∈ read ∨ c = ' ' := by
  cases hmatch with
  | look | token | run => exact .inl hc
  | @gap _ spaced =>
      cases spaced with
      | false => cases hc
      | true => exact .inr (List.mem_singleton.mp hc)
  | space => cases hc

theorem Pattern.Matches.mem_written {before rest read written : Text} {pattern : Pattern}
    (hmatch : pattern.Matches rest before read written) {c : Char} (hc : c ∈ written) :
    c ∈ read ∨ c = ' ' := by
  induction hmatch with
  | nil => cases hc
  | cons hfirst hothers ih =>
      rcases List.mem_append.mp hc with hc | hc
      · exact (hfirst.mem_written hc).imp_left (List.mem_append_left _)
      · exact (ih hc).imp_left (List.mem_append_right _)

theorem Pattern.mem_respaceFrom {pattern : Pattern} {before t : Text} {c : Char}
    (hc : c ∈ pattern.respaceFrom before 0 t) : c ∈ t ∨ c = ' ' := by
  induction before, t using Pattern.respaceFrom_induct pattern with
  | done before => cases hc
  | found before read written rest hne hmatch ih =>
      rw [Pattern.respaceFrom_match hne hmatch] at hc
      rcases List.mem_append.mp hc with hc | hc
      · have hread := (Pattern.matches_of_match? hmatch).mem_written hc
        exact hread.imp_left (List.mem_append_left rest)
      · exact (ih hc).imp_left (List.mem_append_right read)
  | passed before d ds hnone ih =>
      rw [Pattern.respaceFrom_passed hnone] at hc
      rcases List.mem_cons.mp hc with rfl | hc
      · exact .inl List.mem_cons_self
      · exact (ih hc).imp_left (List.mem_cons_of_mem d)

end SourceLayout.Spacing
