import SourceLayout.Proofs.Layout.Reading
import SourceLayout.Proofs.Spacing.Rules
import SourceLayout.Spacing.Bracket

/-!
# Conditionals and keys

A colon closes a conditional or it belongs to a key. Which of them it is depends on the brackets: a
colon can only close a conditional that was opened in the same pair. The rule for keys counts the
conditionals that are open, in all brackets together, and takes a colon for the end of one while
there are any. So it reads a text as the brackets do exactly as long as no key comes while a
conditional is open; a key inside one is left as it is, and the colon that closes the conditional is
written like that of a key.
-/

namespace SourceLayout.Spacing

open Text (trimLeft trimRight trim)

/-! ### Reading the joints of a text -/

/-- A joint, whether it is written like the colon of a key, and the text after it. -/
structure Mark where
  joint : Joint
  key : Bool
  text : Text

/-- A way to tell which colons close a conditional, by a state that is carried through the text. -/
structure Matching (State : Type) where
  start : State
  through : State → Text → State
  isOpen : State → Bool
  opened : State → State
  closed : State → State

namespace Matching

variable {State : Type} (matching : Matching State)

/-- A single colon belongs to a key if no conditional is open; `?:` always does. -/
def isKey (state : State) : Joint → Bool
  | .optionalKey => true
  | .colon => !matching.isOpen state
  | _ => false

def after (state : State) : Joint → State
  | .question => matching.opened state
  | .colon => if matching.isOpen state then matching.closed state else state
  | _ => state

def marksFrom (state : State) (first : Text) : List (Joint × Text) → List Mark
  | [] => []
  | (joint, text) :: others =>
      let state := matching.through state first
      ⟨joint, matching.isKey state joint, text⟩ ::
        marksFrom (matching.after state joint) text others

def marks (text : Text) : List Mark :=
  matching.marksFrom matching.start (cut text).first (cut text).others

end Matching

/-- Every colon closes a conditional while any is open. -/
def byCount : Matching Nat where
  start := 0
  through pending _ := pending
  isOpen pending := decide (0 < pending)
  opened pending := pending + 1
  closed pending := pending - 1

/-- How many conditionals are open in each pair of brackets, innermost first, after a character. -/
def nest (stack : List Nat) (c : Char) : List Nat :=
  if isOpening c then 0 :: stack else if isClosing c then stack.drop 1 else stack

/-- A colon closes a conditional if one is open in its own pair of brackets. -/
def byBracket : Matching (List Nat) where
  start := [0]
  through stack text := text.foldl nest stack
  isOpen stack := decide (0 < stack.headD 0)
  opened stack := (stack.headD 0 + 1) :: stack.drop 1
  closed stack := (stack.headD 0 - 1) :: stack.drop 1

/-- No key comes while a conditional is open; `pending` counts those opened before. -/
def Answered (pending : Nat) : List Mark → Prop
  | [] => True
  | mark :: marks =>
      match mark.joint, mark.key with
      | .question, _ => Answered (pending + 1) marks
      | .colon, true => pending = 0 ∧ Answered pending marks
      | .colon, false => Answered (pending - 1) marks
      | _, _ => Answered pending marks

instance Answered.decide : (pending : Nat) → (marks : List Mark) →
    Decidable (Answered pending marks)
  | _, [] => inferInstanceAs (Decidable True)
  | pending, ⟨.question, _, _⟩ :: marks => Answered.decide (pending + 1) marks
  | pending, ⟨.colon, true, _⟩ :: marks =>
      have := Answered.decide pending marks
      inferInstanceAs (Decidable (pending = 0 ∧ Answered pending marks))
  | pending, ⟨.colon, false, _⟩ :: marks => Answered.decide (pending - 1) marks
  | pending, ⟨.optionalKey, _, _⟩ :: marks => Answered.decide pending marks
  | pending, ⟨.coalesce, _, _⟩ :: marks => Answered.decide pending marks
  | pending, ⟨.chain, _, _⟩ :: marks => Answered.decide pending marks

/-! ### Writing it with its keys -/

/-- The blanks a text ends in. -/
def endGap (text : Text) : Text :=
  (text.reverse.takeWhile isBlank).reverse

/-- The text between two joints. After a key it starts with one space and before a key it ends in
none; a blank one next to a key goes. On its other sides it keeps its blanks. -/
def between (keyBefore keyAfter : Bool) (text : Text) : Text :=
  if text.isEmptyLine then if keyBefore || keyAfter then [] else text
  else
    (if keyBefore then [' '] else text.indentation) ++ text.trim ++
      (if keyAfter then [] else endGap text)

def spell (keyBefore : Bool) (first : Text) : List Mark → Text
  | [] => between keyBefore false first
  | mark :: marks =>
      between keyBefore mark.key first ++ (mark.joint.text ++ spell mark.key mark.text marks)

/-- A text with its keys written out, as a way to match colons tells them. -/
def Matching.write {State : Type} (matching : Matching State) (text : Text) : Text :=
  spell false (cut text).first (matching.marks text)

/-- Before each single colon stands something that is not blank, with blanks after it. -/
def Loose (first : Text) : List (Joint × Text) → Prop
  | [] => True
  | (joint, text) :: others =>
      (joint = .colon → first.isEmptyLine = false ∧ endGap first ≠ []) ∧ Loose text others

instance Loose.decide : (first : Text) → (others : List (Joint × Text)) →
    Decidable (Loose first others)
  | _, [] => inferInstanceAs (Decidable True)
  | first, (joint, text) :: others =>
      have := Loose.decide text others
      inferInstanceAs (Decidable ((joint = .colon → first.isEmptyLine = false ∧ endGap first ≠ []) ∧
        Loose text others))

/-! ### Texts between joints -/

theorem trimRight_append_endGap (text : Text) : text.trimRight ++ endGap text = text := by
  rw [trimRight, endGap, ← List.reverse_append, List.takeWhile_append_dropWhile,
    List.reverse_reverse]

theorem trimRight_append_solid {text : Text} (hsolid : text.isEmptyLine = false) (front : Text) :
    (front ++ text).trimRight = front ++ text.trimRight := by
  have hsolid' : Text.isEmptyLine text.reverse = false := by
    rwa [Text.isEmptyLine, List.all_reverse]
  have hleft := Text.trimLeft_append hsolid' front.reverse
  rw [trimLeft, trimLeft] at hleft
  rw [trimRight, List.reverse_append, hleft, List.reverse_append, List.reverse_reverse, ← trimRight]

theorem indentation_append_trimLeft (text : Text) : text.indentation ++ text.trimLeft = text :=
  List.takeWhile_append_dropWhile

theorem isEmptyLine_trimLeft {text : Text} (hsolid : text.isEmptyLine = false) :
    text.trimLeft.isEmptyLine = false := by
  have hblank : text.indentation.isEmptyLine = true := List.all_takeWhile
  rwa [← indentation_append_trimLeft text, Text.isEmptyLine_append, hblank, Bool.true_and] at hsolid

section

variable {text : Text} (hsolid : text.isEmptyLine = false)

include hsolid

theorem indentation_append_trim : text.indentation ++ text.trim = text.trimRight := by
  rw [trim, ← trimRight_append_solid (isEmptyLine_trimLeft hsolid), indentation_append_trimLeft]

theorem trim_append_endGap : text.trim ++ endGap text = text.trimLeft := by
  have hwhole : text.indentation ++ (text.trim ++ endGap text) =
      text.indentation ++ text.trimLeft := by
    calc text.indentation ++ (text.trim ++ endGap text)
        = text.trimRight ++ endGap text := by
          rw [← List.append_assoc, indentation_append_trim hsolid]
      _ = text := trimRight_append_endGap text
      _ = text.indentation ++ text.trimLeft := (indentation_append_trimLeft text).symm
  exact List.append_cancel_left hwhole

theorem afterKey_solid : afterKey text = ' ' :: text.trimLeft := by
  have hleft := isEmptyLine_trimLeft hsolid
  rw [afterKey]
  split
  next hnil =>
      rw [hnil] at hleft
      cases hleft
  next => rfl

end

theorem afterKey_blank {text : Text} (hblank : text.isEmptyLine = true) : afterKey text = [] := by
  have hnil : text.trimLeft = [] := List.dropWhile_eq_nil_iff.mpr (List.all_eq_true.mp hblank)
  rw [afterKey, hnil]

theorem trimRight_blank {text : Text} (hblank : text.isEmptyLine = true) : text.trimRight = [] := by
  rw [trimRight, List.reverse_eq_nil_iff, List.dropWhile_eq_nil_iff]
  exact fun c hc => List.all_eq_true.mp hblank c (List.mem_reverse.mp hc)

theorem between_false (keyBefore : Bool) (text : Text) :
    between keyBefore false text = if keyBefore then afterKey text else text := by
  rw [between]
  cases hblank : text.isEmptyLine with
  | true => cases keyBefore <;> simp [afterKey_blank hblank]
  | false =>
      rw [if_neg Bool.false_ne_true, if_neg Bool.false_ne_true]
      cases keyBefore with
      | true =>
          rw [if_pos rfl, if_pos rfl, List.append_assoc, trim_append_endGap hblank,
            afterKey_solid hblank]
          rfl
      | false =>
          rw [if_neg Bool.false_ne_true, if_neg Bool.false_ne_true, indentation_append_trim hblank,
            trimRight_append_endGap]

theorem between_true (keyBefore : Bool) (text : Text) :
    between keyBefore true text = (if keyBefore then afterKey text else text).trimRight := by
  rw [between]
  cases hblank : text.isEmptyLine with
  | true =>
      cases keyBefore with
      | true => simp [afterKey_blank hblank, trimRight]
      | false => simp [trimRight_blank hblank]
  | false =>
      rw [if_neg Bool.false_ne_true, if_pos rfl, List.append_nil]
      cases keyBefore with
      | true =>
          have hspace := trimRight_append_solid (isEmptyLine_trimLeft hblank) [' ']
          rw [if_pos rfl, if_pos rfl, afterKey_solid hblank, trim]
          exact hspace.symm
      | false =>
          rw [if_neg Bool.false_ne_true, if_neg Bool.false_ne_true, indentation_append_trim hblank]

/-- What a key takes from the text before it. -/
theorem between_append_endGap (keyBefore : Bool) {text : Text} (hsolid : text.isEmptyLine = false) :
    between keyBefore false text = between keyBefore true text ++ endGap text := by
  rw [between, between, hsolid, if_neg Bool.false_ne_true, if_neg Bool.false_ne_true,
    if_neg Bool.false_ne_true, if_pos rfl, List.append_nil]

/-! ### What the rule does -/

section

variable {State : Type} (matching : Matching State) (state : State) (first text : Text)
  (joint : Joint) (others : List (Joint × Text))

theorem Matching.marksFrom_cons :
    matching.marksFrom state first ((joint, text) :: others) =
      ⟨joint, matching.isKey (matching.through state first) joint, text⟩ ::
        matching.marksFrom (matching.after (matching.through state first) joint) text others :=
  rfl

theorem spell_cons (keyBefore key : Bool) (marks : List Mark) :
    spell keyBefore first (⟨joint, key, text⟩ :: marks) =
      between keyBefore key first ++ (joint.text ++ spell key text marks) :=
  rfl

end

theorem spaceKeys_eq_spell (pending : Nat) (keyBefore : Bool) (first : Text)
    (others : List (Joint × Text)) :
    spaceKeys pending (if keyBefore then afterKey first else first) others =
      spell keyBefore first (byCount.marksFrom pending first others) := by
  induction others generalizing pending keyBefore first with
  | nil => rw [spaceKeys, Matching.marksFrom, spell, between_false]
  | cons entry others ih =>
      obtain ⟨joint, text⟩ := entry
      have hplain : ∀ pending, spaceKeys pending text others =
          spell false text (byCount.marksFrom pending text others) :=
        fun pending => ih pending false text
      have hkey : ∀ pending, spaceKeys pending (afterKey text) others =
          spell true text (byCount.marksFrom pending text others) :=
        fun pending => ih pending true text
      rw [Matching.marksFrom_cons, spell_cons]
      cases joint with
      | question =>
          rw [spaceKeys, hplain, ← between_false, List.append_assoc]
          rfl
      | colon =>
          cases pending with
          | zero =>
              rw [spaceKeys, hkey, ← between_true, List.append_assoc]
              rfl
          | succ pending =>
              rw [spaceKeys, hplain, ← between_false, List.append_assoc]
              rfl
      | optionalKey =>
          rw [spaceKeys, hkey, ← between_true, List.append_assoc]
          rfl
      | coalesce | chain =>
          rw [spaceKeys, hplain, ← between_false, List.append_assoc]
          · rfl
          all_goals simp

theorem keyColons_eq_write (text : Text) : keyColons text = byCount.write text :=
  spaceKeys_eq_spell 0 false (cut text).first (cut text).others

/-! ### Counting and brackets -/

/-- The conditionals that are open in any pair of brackets. -/
def allOpen : List Nat → Nat
  | [] => 0
  | count :: stack => count + allOpen stack

theorem allOpen_eq_headD_add (stack : List Nat) :
    allOpen stack = stack.headD 0 + allOpen (stack.drop 1) := by
  cases stack with
  | nil => rfl
  | cons count stack => rfl

theorem allOpen_foldl_nest_le (stack : List Nat) (text : Text) :
    allOpen (text.foldl nest stack) ≤ allOpen stack := by
  induction text generalizing stack with
  | nil => exact Nat.le_refl _
  | cons c cs ih =>
      have hfirst : allOpen (nest stack c) ≤ allOpen stack := by
        have hsplit := allOpen_eq_headD_add stack
        rw [nest]
        split
        next => simp [allOpen]
        next =>
            split
            next => omega
            next => exact Nat.le_refl _
      exact (ih (nest stack c)).trans hfirst

/-- Both ways to tell a joint agree, unless the brackets tell a key while something is counted. -/
theorem isKey_eq_or {stack : List Nat} {pending : Nat} (hall : allOpen stack ≤ pending)
    (joint : Joint) :
    (byBracket.isKey stack joint = byCount.isKey pending joint ∧
      allOpen (byBracket.after stack joint) ≤ byCount.after pending joint) ∨
    (joint = .colon ∧ byBracket.isKey stack joint = true ∧ 0 < pending) := by
  have hsplit := allOpen_eq_headD_add stack
  cases joint with
  | coalesce | chain | optionalKey => exact .inl ⟨rfl, hall⟩
  | question =>
      refine .inl ⟨rfl, ?_⟩
      simp only [Matching.after, byBracket, byCount, allOpen]
      omega
  | colon =>
      cases hopen : byBracket.isOpen stack with
      | true =>
          have hinner : 0 < stack.headD 0 := of_decide_eq_true hopen
          have hcounted : byCount.isOpen pending = true := decide_eq_true (by omega : 0 < pending)
          refine .inl ⟨?_, ?_⟩
          · rw [Matching.isKey, Matching.isKey, hopen, hcounted]
          · rw [Matching.after, Matching.after, if_pos hopen, if_pos hcounted]
            change stack.headD 0 - 1 + allOpen (stack.drop 1) ≤ pending - 1
            omega
      | false =>
          have hkey : byBracket.isKey stack .colon = true := by
            rw [Matching.isKey, hopen]
            rfl
          cases hcounted : byCount.isOpen pending with
          | true => exact .inr ⟨rfl, hkey, of_decide_eq_true hcounted⟩
          | false =>
              refine .inl ⟨?_, ?_⟩
              · rw [Matching.isKey, Matching.isKey, hopen, hcounted]
              · rw [Matching.after, Matching.after, if_neg (by simp [hopen]),
                  if_neg (by simp [hcounted])]
                exact hall

/-- A joint that is told by counting leaves as many conditionals open as are counted then. -/
theorem answered_counted_iff (pending : Nat) (joint : Joint) (text : Text) (marks : List Mark) :
    Answered pending (⟨joint, byCount.isKey pending joint, text⟩ :: marks) ↔
      Answered (byCount.after pending joint) marks := by
  cases joint with
  | coalesce | chain | optionalKey | question => exact Iff.rfl
  | colon =>
      cases pending with
      | zero => exact and_iff_right rfl
      | succ pending => exact Iff.rfl

theorem not_answered_key {pending : Nat} (hpending : 0 < pending) (text : Text)
    (marks : List Mark) : ¬Answered pending (⟨.colon, true, text⟩ :: marks) :=
  fun hanswered => absurd hanswered.1 (by omega)

variable {pending : Nat} {stack : List Nat} {first : Text} {others : List (Joint × Text)}

theorem marksFrom_eq_of_answered (hall : allOpen stack ≤ pending)
    (hanswered : Answered pending (byBracket.marksFrom stack first others)) :
    byBracket.marksFrom stack first others = byCount.marksFrom pending first others := by
  -- No more conditionals are open in brackets than are counted: closing a pair only loses some.
  induction others generalizing pending stack first with
  | nil => rfl
  | cons entry others ih =>
      obtain ⟨joint, text⟩ := entry
      have hinner : allOpen (byBracket.through stack first) ≤ byCount.through pending first :=
        (allOpen_foldl_nest_le stack first).trans hall
      rw [Matching.marksFrom_cons] at hanswered
      rw [Matching.marksFrom_cons, Matching.marksFrom_cons]
      rcases isKey_eq_or hinner joint with ⟨hkey, hlater⟩ | ⟨rfl, hkey, hcounted⟩
      · rw [hkey] at hanswered ⊢
        rw [ih hlater ((answered_counted_iff _ _ _ _).mp hanswered)]
      · rw [hkey] at hanswered
        exact absurd hanswered (not_answered_key hcounted text _)

/-- Whether a colon is read as that of a key shows in the blanks before it. -/
theorem between_append_colon_ne (keyBefore : Bool) (hsolid : first.isEmptyLine = false)
    (hgap : endGap first ≠ []) (rest rest' : Text) :
    between keyBefore false first ++ ':' :: rest ≠
      between keyBefore true first ++ ':' :: rest' := by
  rw [between_append_endGap keyBefore hsolid, List.append_assoc]
  intro heq
  have hcancel := List.append_cancel_left heq
  obtain ⟨c, cs, hcs⟩ := List.exists_cons_of_ne_nil hgap
  have hblank : isBlank c = true := by
    have hmem : c ∈ endGap first := by rw [hcs]; exact List.mem_cons_self
    exact List.all_eq_true.mp List.all_takeWhile c (List.mem_reverse.mp hmem)
  rw [hcs, List.cons_append, List.cons.injEq] at hcancel
  rw [hcancel.1] at hblank
  cases hblank

theorem answered_of_spell_eq (hall : allOpen stack ≤ pending) (hloose : Loose first others)
    {keyBefore : Bool}
    (heq : spell keyBefore first (byCount.marksFrom pending first others) =
      spell keyBefore first (byBracket.marksFrom stack first others)) :
    Answered pending (byBracket.marksFrom stack first others) := by
  induction others generalizing pending stack first keyBefore with
  | nil => trivial
  | cons entry others ih =>
      obtain ⟨joint, text⟩ := entry
      have hinner : allOpen (byBracket.through stack first) ≤ byCount.through pending first :=
        (allOpen_foldl_nest_le stack first).trans hall
      obtain ⟨hcolon, hlater⟩ := hloose
      rw [Matching.marksFrom_cons, Matching.marksFrom_cons, spell_cons, spell_cons] at heq
      rw [Matching.marksFrom_cons]
      rcases isKey_eq_or hinner joint with ⟨hkey, hall'⟩ | ⟨rfl, hkey, hcounted⟩
      · rw [hkey] at heq ⊢
        have hcancel := List.append_cancel_left (List.append_cancel_left heq)
        exact (answered_counted_iff _ _ _ _).mpr (ih hall' hlater hcancel)
      · obtain ⟨hsolid, hgap⟩ := hcolon rfl
        have hopen : byCount.isKey (byCount.through pending first) .colon = false := by
          simpa [Matching.isKey, byCount] using hcounted
        rw [hkey, hopen] at heq
        exact absurd heq (between_append_colon_ne keyBefore hsolid hgap _ _)

/-- **Keys are told from conditionals by a count.** A single colon keeps the blanks around it while
any conditional is open, and is written like that of a key otherwise. This is what the brackets ask
for if no key comes while a conditional is open. Otherwise it is something else, as soon as single
colons have blanks before them. -/
theorem keyColons_matches (text : Text) :
    keyColons text = byCount.write text ∧
      (Answered 0 (byBracket.marks text) → keyColons text = byBracket.write text) ∧
      (Loose (cut text).first (cut text).others → keyColons text = byBracket.write text →
        Answered 0 (byBracket.marks text)) := by
  have hcount := keyColons_eq_write text
  refine ⟨hcount, fun hanswered => ?_, fun hloose heq => ?_⟩
  · rw [hcount, Matching.write, Matching.write, Matching.marks, Matching.marks]
    rw [Matching.marks] at hanswered
    exact congrArg _ (marksFrom_eq_of_answered (Nat.le_refl 0) hanswered).symm
  · rw [hcount] at heq
    exact answered_of_spell_eq (Nat.le_refl 0) hloose heq

/-- A conditional in the value of a key is told from it, a key in a conditional is not: it is left
as it is, and the colon that closes the conditional loses the blank before it. -/
theorem keyColons_nested :
    keyColons "{a : b ? (c ? d : e) : f}".toList = "{a: b ? (c ? d : e) : f}".toList ∧
      keyColons "a ? {b : c} : d".toList = "a ? {b : c}: d".toList ∧
      byBracket.write "a ? {b : c} : d".toList = "a ? {b: c} : d".toList ∧
      keyColons "a ? {b : c} : d".toList ≠ byBracket.write "a ? {b : c} : d".toList := by
  have hanswered : Answered 0 (byBracket.marks "{a : b ? (c ? d : e) : f}".toList) := by decide
  have hloose :
      Loose (cut "a ? {b : c} : d".toList).first (cut "a ? {b : c} : d".toList).others := by
    decide
  have hstray : ¬Answered 0 (byBracket.marks "a ? {b : c} : d".toList) := by decide
  refine ⟨((keyColons_matches _).2.1 hanswered).trans ?_, by decide, by decide, fun heq => ?_⟩
  · decide
  · exact hstray ((keyColons_matches _).2.2 hloose heq)

end SourceLayout.Spacing
