import SourceLayout.Proofs.Json.Written
import SourceLayout.Proofs.Line

/-!
# Scanning and masking a written line

The scanner takes a quote for the end of a string unless a backslash stands before it. Inside a
string every quote has its backslash, so the scanner ends where the string does if the string does
not end in a backslash. Then no comment is found, every string is masked as a whole, and so is every
number with an exponent, but for its sign.
-/

namespace SourceLayout.Json

open Literal (mark markOpen lengthTo quoted exponent isForeign Finder)

/-! ### Strings -/

theorem StringPart.lengthTo_append (part : StringPart) (previous : Char) (rest : Text) :
    lengthTo '"' previous (part.text ++ rest) =
      part.text.length + lengthTo '"' (part.text.getLast?.getD previous) rest := by
  cases part with
  | plain c hc => simp [StringPart.text, lengthTo, hc.2.1, Nat.add_comm]
  | escape c hc => simp [StringPart.text, lengthTo]; omega
  | code a b c d hex =>
      have hne : ∀ digit ∈ [a, b, c, d], digit ≠ '"' := by
        rintro digit hdigit rfl
        exact absurd (hex '"' hdigit) (by decide)
      simp only [List.mem_cons, List.not_mem_nil, or_false, forall_eq_or_imp, forall_eq] at hne
      simp [StringPart.text, lengthTo, hne]
      omega

theorem Str.lengthTo_append (s : Str) (previous : Char) (rest : Text) :
    lengthTo '"' previous (s.body ++ rest) =
      s.body.length + lengthTo '"' (s.body.getLast?.getD previous) rest := by
  induction s generalizing previous with
  | nil => simp [body]
  | cons part parts ih =>
      have hbody : body (part :: parts) = part.text ++ body parts := rfl
      have hlast : (body parts).getLast?.getD (part.text.getLast?.getD previous) =
          ((body parts).getLast?.or part.text.getLast?).getD previous := by
        cases (body parts).getLast? <;> rfl
      rw [hbody, List.append_assoc, part.lengthTo_append, ih, List.getLast?_append, hlast,
        List.length_append, Nat.add_assoc]

/-- The scanner ends with the string, unless a backslash does. -/
theorem Str.lengthTo_text {s : Str} (hends : ¬s.EndsInBackslash) (rest : Text) :
    lengthTo '"' '"' (s.body ++ '"' :: rest) = s.body.length + 1 := by
  have hlast : s.body.getLast?.getD '"' ≠ '\\' := by
    intro hlast
    cases hget : s.body.getLast? with
    | none => simp [hget] at hlast
    | some c =>
        rw [hget, Option.getD_some] at hlast
        exact hends (by rw [EndsInBackslash, hget, hlast])
  rw [s.lengthTo_append, lengthTo, if_pos ⟨rfl, hlast⟩]

/-! ### Comments -/

theorem startFrom_inside {family : Family} {stop previous : Char} {inner rest : Text}
    (hlength : lengthTo stop previous (inner ++ rest) = inner.length)
    (hrest : ∀ last, Comment.startFrom family (some last) none rest = none) :
    Comment.startFrom family (some previous) (some stop) (inner ++ rest) = none := by
  induction inner generalizing previous with
  | nil =>
      cases rest with
      | nil => rfl
      | cons c cs =>
          simp only [List.nil_append, lengthTo, List.length_nil] at hlength
          split at hlength <;> simp at hlength
  | cons c cs ih =>
      simp only [List.cons_append, lengthTo, List.length_cons] at hlength
      simp only [List.cons_append, Comment.startFrom, Option.map_eq_none_iff, Option.some.injEq,
        ne_eq]
      split at hlength
      next hstop =>
          obtain rfl : cs = [] := List.length_eq_zero_iff.mp (by omega)
          rw [if_pos hstop]
          exact hrest c
      next hstop =>
          rw [if_neg hstop]
          exact ih (by omega)

/-- Signs that may start a literal or a comment. -/
def isDelimiter (c : Char) : Bool :=
  Family.javascript.quotes.contains c || c == '/'

theorem literalEnd?_eq_none {c : Char} (hc : isDelimiter c = false) (previous : Option Char) :
    Family.javascript.literalEnd? previous c = none := by
  simp only [isDelimiter, Bool.or_eq_false_iff, beq_eq_false_iff_ne] at hc
  have hquote : c ∉ Family.javascript.quotes := by simpa using hc.1
  simp [Family.literalEnd?, hquote, hc.2]

theorem startFrom_cons {c : Char} (hc : isDelimiter c = false) {t : Text}
    (hrest : Comment.startFrom .javascript (some c) none t = none) (previous : Option Char) :
    Comment.startFrom .javascript previous none (c :: t) = none := by
  have hopens : Family.javascript.opensComment (c :: t) = false := by
    have hslash : c ≠ '/' := by
      rintro rfl
      exact absurd hc (by decide)
    unfold Family.opensComment
    split <;> simp_all
  simp [Comment.startFrom, hopens, literalEnd?_eq_none hc, hrest]

theorem startFrom_append {left : Text} (hleft : ∀ c ∈ left, isDelimiter c = false) {t : Text}
    (hrest : ∀ previous, Comment.startFrom .javascript previous none t = none)
    (previous : Option Char) :
    Comment.startFrom .javascript previous none (left ++ t) = none := by
  induction left generalizing previous with
  | nil => exact hrest previous
  | cons c cs ih =>
      refine startFrom_cons (hleft c List.mem_cons_self) ?_ previous
      exact ih (fun d hd => hleft d (List.mem_cons_of_mem c hd)) _

/-- The characters of signs, words and numbers. -/
def isBare (c : Char) : Bool :=
  c.isAlphanum || ['[', ']', '{', '}', ',', ':', '-', '+', '.'].contains c

theorem Token.isBare_text {token : Token} (hstring : ∀ s, token ≠ .string s) {c : Char}
    (hc : c ∈ token.text) : isBare c = true := by
  have hdigit : ∀ d : Char, d.isDigit = true → isBare d = true := by
    intro d hd
    simp [isBare, Char.isAlphanum, hd]
  cases token with
  | sign s =>
      rw [List.mem_singleton.mp hc]
      cases s <;> decide
  | word w =>
      have hword : w.text.all isBare = true := by cases w <;> decide
      exact List.all_eq_true.mp hword c hc
  | number n =>
      have hcore : ∀ d ∈ n.core, isBare d = true := by
        intro d hd
        rcases n.mem_core hd with hd | hd
        · exact hdigit d hd
        · have hsigns : ['.', 'e', 'E', '+', '-'].all isBare = true := by decide
          exact List.all_eq_true.mp hsigns d hd
      rw [Token.text, Number.text] at hc
      split at hc
      · rcases List.mem_cons.mp hc with rfl | hc
        · decide
        · exact hcore c hc
      · exact hcore c hc
  | string s => exact absurd rfl (hstring s)

theorem isDelimiter_of_isBare {c : Char} (hc : isBare c = true) : isDelimiter c = false := by
  rw [Bool.eq_false_iff]
  intro hdelimiter
  simp only [isDelimiter, Family.quotes, Bool.or_eq_true, List.contains_iff_mem, List.mem_cons,
    List.not_mem_nil, or_false, beq_iff_eq] at hdelimiter
  rcases hdelimiter with (rfl | rfl | rfl) | rfl <;> exact absurd hc (by decide)

/-- Outside its strings a written text holds no delimiter. -/
theorem Token.isDelimiter_text {token : Token} (hstring : ∀ s, token ≠ .string s) :
    ∀ c ∈ token.text, isDelimiter c = false :=
  fun _ hc => isDelimiter_of_isBare (token.isBare_text hstring hc)

theorem isDelimiter_of_isSpace {c : Char} (hc : isSpace c = true) : isDelimiter c = false := by
  simpa using @of_isSpace (fun c => !isDelimiter c) (by decide) c hc

/-- There are no comments in a document. -/
theorem startFrom_written {tokens : List Token} {t : Text} (h : Written tokens t)
    (hends : ∀ s, .string s ∈ tokens → ¬s.EndsInBackslash) (previous : Option Char) :
    Comment.startFrom .javascript previous none t = none := by
  induction h generalizing previous with
  | nil => rfl
  | space hc _ ih => exact startFrom_cons (isDelimiter_of_isSpace hc) (ih hends _) previous
  | @token tok tokens t h ih =>
      have hrest := ih fun s hs => hends s (List.mem_cons_of_mem tok hs)
      cases tok with
      | string s =>
          have hclosed := s.lengthTo_text (hends s List.mem_cons_self) t
          have hinside := @startFrom_inside .javascript '"' '"' (s.body ++ ['"']) t
            (by simpa using hclosed) fun last => hrest (some last)
          simpa [Token.text, Str.text, Comment.startFrom, Family.opensComment,
            Family.literalEnd?, Family.quotes] using hinside
      | sign _ | word _ | number _ =>
          exact startFrom_append (Token.isDelimiter_text (by simp)) hrest previous

/-- A written text starts and ends with white space, a quote, or a character of another token. -/
theorem headIs_written {sign : Char} (hspace : isSpace sign = false) (hbare : isBare sign = false)
    (hquote : sign ≠ '"') {tokens : List Token} {t : Text} (h : Written tokens t) :
    headIs (· == sign) t = false ∧ headIs (· == sign) t.reverse = false := by
  have hends : ∀ u : Text, sign ∉ u → headIs (· == sign) u = false := by
    intro u hu
    cases u with
    | nil => rfl
    | cons c cs =>
        simp only [List.mem_cons, not_or] at hu
        simpa using Ne.symm hu.1
  have htoken : ∀ tok : Token, headIs (· == sign) tok.text = false ∧
      headIs (· == sign) tok.text.reverse = false := by
    intro tok
    by_cases hstring : ∃ s, tok = .string s
    · obtain ⟨s, rfl⟩ := hstring
      simpa [Token.text, Str.text] using Ne.symm hquote
    · have hnot : sign ∉ tok.text := by
        intro hmem
        rw [tok.isBare_text (fun s hs => hstring ⟨s, hs⟩) hmem] at hbare
        simp at hbare
      exact ⟨hends _ hnot, hends _ (by simpa using hnot)⟩
  induction h with
  | nil => exact ⟨rfl, rfl⟩
  | @space c hc tokens t h ih =>
      have hne : c ≠ sign := by
        rintro rfl
        simp [hc] at hspace
      refine ⟨by simpa using hne, ?_⟩
      by_cases ht : t = []
      · simpa [ht] using hne
      · rw [Text.headIs_reverse_cons ht]
        exact ih.2
  | @token tok tokens t h ih =>
      refine ⟨?_, ?_⟩
      · rw [Text.headIs_append tok.text_ne_nil]
        exact (htoken tok).1
      · by_cases ht : t = []
        · rw [ht, List.append_nil]
          exact (htoken tok).2
        · rw [List.reverse_append, Text.headIs_append (by simpa using ht)]
          exact ih.2

theorem isBlockLine_written {tokens : List Token} {t : Text} (h : Written tokens t) :
    Comment.isBlockLine t = false := by
  have hslash : headIs (· == '/') t = false ∧ headIs (· == '/') t.reverse = false :=
    headIs_written (by decide) (by decide) (by decide) h
  have hstar : headIs (· == '*') t = false ∧ headIs (· == '*') t.reverse = false :=
    headIs_written (by decide) (by decide) (by decide) h
  exact Comment.isBlockLine_eq_false hslash.1 hstar.1 hslash.2

/-! ### Forms -/

/-- How a token stands in a masked text: a sign, or a core that may have a minus before it. -/
inductive Form where
  | sign (sign : Sign)
  | atom (negative : Bool) (core : Text)

def Form.text : Form → Text
  | .sign s => [s.char]
  | .atom negative core => if negative then '-' :: core else core

/-- A text of forms and white space. -/
inductive Formed : List Form → Text → Prop
  | nil : Formed [] []
  | space {c : Char} (hc : isSpace c = true) {forms : List Form} {t : Text} (h : Formed forms t) :
      Formed forms (c :: t)
  | form (form : Form) {forms : List Form} {t : Text} (h : Formed forms t) :
      Formed (form :: forms) (form.text ++ t)

/-- The forms a token may take when its literals are in a table. Once exponents are masked, `all`
holds and no number shows one. -/
inductive Masks (literals : List Text) (all : Bool) : Token → Form → Prop
  | sign (s : Sign) : Masks literals all (.sign s) (.sign s)
  | word (w : Word) : Masks literals all (.word w) (.atom false w.text)
  | string {s : Str} {place : Nat} (hget : literals[place]? = some s.text) :
      Masks literals all (.string s) (.atom false (mark place))
  | number (n : Number) (hplain : all = true → n.exponent = none) :
      Masks literals all (.number n) (.atom n.negative n.core)
  | exponent {n : Number} {place : Nat} (hall : all = true)
      (hget : literals[place]? = some n.core) :
      Masks literals all (.number n) (.atom n.negative (mark place))

theorem Masks.extend {literals : List Text} {all : Bool} {token : Token} {form : Form}
    (h : Masks literals all token form) (extra : List Text) :
    Masks (literals ++ extra) all token form := by
  have hget : ∀ {place : Nat} {span : Text}, literals[place]? = some span →
      (literals ++ extra)[place]? = some span := by
    intro place span hsome
    rw [List.getElem?_append_left (List.getElem?_eq_some_iff.mp hsome).1]
    exact hsome
  cases h with
  | sign s => exact .sign s
  | word w => exact .word w
  | string hsome => exact .string (hget hsome)
  | number n hplain => exact .number n hplain
  | exponent hall hsome => exact .exponent hall (hget hsome)

/-! ### Masking strings -/

theorem quoted_eq_zero {c : Char} (hc : isDelimiter c = false) (before t : Text) :
    quoted .javascript before (c :: t) = 0 := by
  simp [quoted, literalEnd?_eq_none hc]

theorem quoted_string {s : Str} (hends : ¬s.EndsInBackslash) (before rest : Text) :
    quoted .javascript before (s.text ++ rest) = s.text.length := by
  have hclosed := s.lengthTo_text hends rest
  simp [quoted, Str.text, Family.literalEnd?, Family.quotes, hclosed]

/-- Strings give way to marks, and all else stays. -/
theorem quoted_written {tokens : List Token} {t : Text} (h : Written tokens t)
    (hends : ∀ s, .string s ∈ tokens → ¬s.EndsInBackslash) (before : Text)
    (literals : List Text) :
    ∃ forms extra t', (quoted .javascript).maskFrom before 0 t literals = ⟨t', literals ++ extra⟩ ∧
      Formed forms t' ∧ List.Forall₂ (Masks (literals ++ extra) false) tokens forms := by
  induction h generalizing before literals with
  | nil => exact ⟨[], [], [], by simp [Finder.maskFrom], .nil, .nil⟩
  | @space c hc tokens t h ih =>
      obtain ⟨forms, extra, t', hmask, hformed, hforms⟩ := ih hends (c :: before) literals
      refine ⟨forms, extra, c :: t', ?_, .space hc hformed, hforms⟩
      rw [Finder.maskFrom_cons (quoted_eq_zero (isDelimiter_of_isSpace hc) before t), hmask]
      rfl
  | @token tok tokens t h ih =>
      have hrest := ih fun s hs => hends s (List.mem_cons_of_mem tok hs)
      -- Whatever is no string is passed over.
      have hbare : (∀ s, tok ≠ .string s) → ∀ form : Form, form.text = tok.text →
          (∀ literals, Masks literals false tok form) →
          ∃ forms extra t', (quoted .javascript).maskFrom before 0 (tok.text ++ t) literals =
              ⟨t', literals ++ extra⟩ ∧ Formed forms t' ∧
            List.Forall₂ (Masks (literals ++ extra) false) (tok :: tokens) forms := by
        intro hstring form hform hmasks
        obtain ⟨forms, extra, t', hmask, hformed, hforms⟩ :=
          hrest (tok.text.reverse ++ before) literals
        refine ⟨form :: forms, extra, form.text ++ t', ?_, .form form hformed,
          .cons (hmasks _) hforms⟩
        rw [Finder.maskFrom_of_forall fun c hc before rest =>
          quoted_eq_zero (Token.isDelimiter_text hstring c hc) before rest, hmask, hform]
        rfl
      cases tok with
      | sign s => exact hbare (by simp) (.sign s) rfl fun _ => .sign s
      | word w => exact hbare (by simp) (.atom false w.text) rfl fun _ => .word w
      | number n => exact hbare (by simp) (.atom n.negative n.core) rfl fun _ => .number n (by simp)
      | string s =>
          obtain ⟨forms, extra, t', hmask, hformed, hforms⟩ :=
            hrest (s.text.reverse ++ before) (literals ++ [s.text])
          rw [List.append_assoc, List.singleton_append] at hmask hforms
          refine ⟨.atom false (mark literals.length) :: forms, s.text :: extra,
            mark literals.length ++ t', ?_, .form _ hformed, .cons (.string (by simp)) hforms⟩
          have hfound := quoted_string (hends s List.mem_cons_self) before t
          have hne : s.text ≠ [] := by simp [Str.text]
          rw [Token.text, Finder.maskFrom_found hne hfound, hmask]
          rfl

/-! ### Numbers -/

theorem takeWhile_isDecimal_append {digits rest : Text} (hdigits : IsDigits digits)
    (hrest : headIs isDecimal rest = false) :
    (digits ++ rest).takeWhile isDecimal = digits ∧
      (digits ++ rest).dropWhile isDecimal = rest := by
  have hall : ∀ c ∈ digits, isDecimal c = true := fun c hc => isDecimal_of_isDigit (hdigits.2 c hc)
  rw [List.takeWhile_append_of_pos hall, List.dropWhile_append_of_pos hall]
  cases rest with
  | nil => simp
  | cons c cs =>
      have hc : isDecimal c = false := hrest
      simp [hc]

theorem exponentLength_eq_zero {rest : Text}
    (hrest : headIs (fun c => c == 'e' || c == 'E') rest = false) :
    Literal.exponentLength rest = 0 := by
  cases rest with
  | nil => rfl
  | cons c cs =>
      have hc : ¬(c = 'e' ∨ c = 'E') := by simpa using hrest
      simp [Literal.exponentLength, hc]

theorem Exponent.exponentLength_text (exponent : Exponent) {rest : Text}
    (hrest : headIs isDecimal rest = false) :
    Literal.exponentLength (exponent.text ++ rest) = exponent.text.length := by
  have htake := (takeWhile_isDecimal_append exponent.isDigits hrest).1
  have hletter := exponent.letter_eq
  cases hdigits : exponent.digits with
  | nil => exact absurd hdigits exponent.isDigits.1
  | cons d ds =>
      rw [hdigits, List.cons_append] at htake
      rcases exponent.sign_eq with hsign | hsign | hsign
      · have hd : ¬(d = '-' ∨ d = '+') := by
          have hdigit := exponent.isDigits.2 d (by simp [hdigits])
          rintro (rfl | rfl) <;> exact absurd hdigit (by decide)
        simp [Exponent.text, hsign, hdigits, Literal.exponentLength, hletter, hd, htake]
      · simp [Exponent.text, hsign, hdigits, Literal.exponentLength, hletter, htake]
      · simp [Exponent.text, hsign, hdigits, Literal.exponentLength, hletter, htake]

/-- The digits of a fraction with their point. -/
def fractionLength : Text → Nat
  | '.' :: cs => (cs.takeWhile isDecimal).length + 1
  | _ => 0

theorem exponent_digits {before digits rest : Text}
    (hbefore : headIs (fun c => isWord c || c == '.') before = false) (hdigits : IsDigits digits)
    (hrest : headIs isDecimal rest = false) :
    exponent before (digits ++ rest) =
      match Literal.exponentLength (rest.drop (fractionLength rest)) with
      | 0 => 0
      | m + 1 => digits.length + fractionLength rest + m + 1 := by
  obtain ⟨htake, hdrop⟩ := takeWhile_isDecimal_append hdigits hrest
  have hempty : digits.isEmpty = false := by simpa using hdigits.1
  rw [exponent, hbefore, htake, hdrop]
  dsimp only
  rw [hempty]
  rfl

/-- The scanner reads the digits of a number, and what follows must be an exponent. -/
theorem exponent_mantissa (n : Number) {before rest : Text}
    (hbefore : headIs (fun c => isWord c || c == '.') before = false)
    (hrest : headIs (fun c => isDecimal c || c == '.') rest = false) :
    exponent before (n.mantissa ++ rest) =
      match Literal.exponentLength rest with
      | 0 => 0
      | m + 1 => n.mantissa.length + m + 1 := by
  have hstop : headIs isDecimal rest = false ∧ fractionLength rest = 0 := by
    cases rest with
    | nil => exact ⟨rfl, rfl⟩
    | cons c cs =>
        simp only [headIs_cons, Bool.or_eq_false_iff, beq_eq_false_iff_ne] at hrest
        refine ⟨hrest.1, ?_⟩
        unfold fractionLength
        split
        next heq => exact absurd (List.cons.inj heq).1 hrest.2
        next => rfl
  cases hfraction : n.fraction with
  | none =>
      have hmantissa : n.mantissa = n.whole := by simp [Number.mantissa, hfraction]
      have hdigits := exponent_digits hbefore n.whole_isDigits hstop.1
      rwa [hstop.2, List.drop_zero, Nat.add_zero, ← hmantissa] at hdigits
  | some digits =>
      have hmantissa : n.mantissa = n.whole ++ '.' :: digits := by
        simp [Number.mantissa, hfraction]
      have hpoint : headIs isDecimal ('.' :: (digits ++ rest)) = false := by
        rw [headIs_cons]
        decide
      have htake := (takeWhile_isDecimal_append (n.fraction_isDigits digits hfraction) hstop.1).1
      have hlength : fractionLength ('.' :: (digits ++ rest)) = digits.length + 1 := by
        rw [fractionLength, htake]
      have hdigits := exponent_digits hbefore n.whole_isDigits hpoint
      rw [hlength, List.drop_succ_cons, List.drop_left] at hdigits
      rw [hmantissa, List.append_assoc, List.cons_append, hdigits, List.length_append,
        List.length_cons]

/-- Behind the first character of a number no other number starts. -/
theorem exponent_continued {stretch : Text}
    (hall : ∀ c ∈ stretch, (isWord c || c == '.') = true) {before : Text}
    (hbefore : headIs (fun c => isWord c || c == '.') before = true) (rest : Text)
    (literals : List Text) :
    exponent.maskFrom before 0 (stretch ++ rest) literals =
      (exponent.maskFrom (stretch.reverse ++ before) 0 rest literals).prepend stretch := by
  induction stretch generalizing before with
  | nil => rfl
  | cons c cs ih =>
      have hfirst := Literal.exponent_eq_zero_of_continued hbefore (c :: (cs ++ rest))
      have hrest := @ih (fun d hd => hall d (List.mem_cons_of_mem c hd)) (c :: before)
        (hall c List.mem_cons_self)
      rw [List.cons_append, Finder.maskFrom_cons hfirst, hrest]
      simp [Literal.Masked.prepend]

theorem Number.mem_mantissa {n : Number} {c : Char} (hc : c ∈ n.mantissa) :
    (isWord c || c == '.') = true := by
  rw [mantissa, List.mem_append] at hc
  rcases hc with hwhole | hfraction
  · simp [Literal.isWord_of_isDigit (n.whole_isDigits.2 c hwhole)]
  · cases hsome : n.fraction with
    | none => simp [hsome] at hfraction
    | some digits =>
        simp only [hsome, Option.elim_some, List.mem_cons] at hfraction
        rcases hfraction with rfl | hdigit
        · rfl
        · simp [Literal.isWord_of_isDigit ((n.fraction_isDigits digits hsome).2 c hdigit)]

/-- A number without exponent stays. -/
theorem exponent_plain {n : Number} (hplain : n.exponent = none) {before rest : Text}
    (hbefore : headIs (fun c => isWord c || c == '.') before = false)
    (hrest : headIs (fun c => isDecimal c || c == '.' || c == 'e' || c == 'E') rest = false)
    (literals : List Text) :
    exponent.maskFrom before 0 (n.core ++ rest) literals =
      (exponent.maskFrom (n.core.reverse ++ before) 0 rest literals).prepend n.core := by
  have hcore : n.core = n.mantissa := by simp [Number.core, hplain]
  have hstop : headIs (fun c => isDecimal c || c == '.') rest = false ∧
      headIs (fun c => c == 'e' || c == 'E') rest = false := by
    cases rest with
    | nil => exact ⟨rfl, rfl⟩
    | cons c cs => simp_all
  have hzero := exponent_mantissa n hbefore hstop.1
  rw [exponentLength_eq_zero hstop.2] at hzero
  rw [hcore]
  cases hmantissa : n.mantissa with
  | nil => rfl
  | cons c cs =>
      have hall : ∀ d ∈ c :: cs, (isWord d || d == '.') = true :=
        fun d hd => n.mem_mantissa (hmantissa ▸ hd)
      rw [hmantissa, List.cons_append] at hzero
      have hothers := @exponent_continued cs (fun d hd => hall d (List.mem_cons_of_mem c hd))
        (c :: before) (hall c List.mem_cons_self) rest literals
      rw [List.cons_append, Finder.maskFrom_cons hzero, hothers]
      simp [Literal.Masked.prepend]

/-- A number with an exponent is found as a whole. -/
theorem exponent_core {n : Number} {e : Exponent} (hsome : n.exponent = some e)
    {before rest : Text} (hbefore : headIs (fun c => isWord c || c == '.') before = false)
    (hrest : headIs isDecimal rest = false) :
    exponent before (n.core ++ rest) = n.core.length := by
  have hcore : n.core = n.mantissa ++ e.text := by simp [Number.core, hsome]
  have hletter : headIs (fun c => isDecimal c || c == '.') (e.text ++ rest) = false := by
    rw [Exponent.text, List.cons_append, headIs_cons]
    rcases e.letter_eq with hletter | hletter <;> rw [hletter] <;> decide
  have hfound := exponent_mantissa n hbefore hletter
  have hlength : e.text.length = (e.sign ++ e.digits).length + 1 := rfl
  rw [e.exponentLength_text hrest, hlength] at hfound
  have hsum : n.core.length = n.mantissa.length + e.text.length := by
    rw [hcore, List.length_append]
  rw [hsum, hlength, hcore, List.append_assoc, hfound]
  rfl

/-! ### Masking numbers -/

/-- Whether atoms stand at the start or after a sign that leads to them only. -/
def placed (ready : Bool) : List Form → Bool
  | [] => true
  | .sign s :: forms => placed s.leads forms
  | .atom _ _ :: forms => ready && placed false forms

theorem placed_of_masks {literals : List Text} {all : Bool} {tokens : List Token}
    {forms : List Form} (h : List.Forall₂ (Masks literals all) tokens forms) (ready : Bool) :
    placed ready forms = wellPlaced ready tokens := by
  induction h generalizing ready with
  | nil => rfl
  | cons hmasks _ ih => cases hmasks <;> simp [placed, wellPlaced, ih]

/-- An atom ends the text, or white space or a sign comes after it. -/
theorem headIs_formed {p : Char → Bool} (hspace : ∀ c, isSpace c = true → p c = false)
    (hsign : ∀ s : Sign, p s.char = false) {forms : List Form} {t : Text} (h : Formed forms t)
    (hplaced : placed false forms = true) : headIs p t = false := by
  cases h with
  | nil => rfl
  | space hc _ => exact hspace _ hc
  | form form _ =>
      cases form with
      | sign s => exact hsign s
      | atom negative core => simp [placed] at hplaced

theorem isWord_of_isSpace {c : Char} (hc : isSpace c = true) : (isWord c || c == '.') = false := by
  simpa using @of_isSpace (fun c => !(isWord c || c == '.')) (by decide) c hc

/-- The minus of an atom stays, and a number may start after it. -/
theorem exponent_atom (negative : Bool) (core : Text) {before : Text}
    (hbefore : headIs (fun c => isWord c || c == '.') before = false) (rest : Text)
    (literals : List Text) :
    ∃ before' lead, headIs (fun c => isWord c || c == '.') before' = false ∧
      (∀ core', (Form.atom negative core').text = lead ++ core') ∧
      (Form.atom negative core).text.reverse ++ before = core.reverse ++ before' ∧
      exponent.maskFrom before 0 ((Form.atom negative core).text ++ rest) literals =
        (exponent.maskFrom before' 0 (core ++ rest) literals).prepend lead := by
  cases negative with
  | false => exact ⟨before, [], hbefore, fun _ => rfl, rfl, rfl⟩
  | true =>
      refine ⟨'-' :: before, ['-'], rfl, fun _ => rfl, by simp [Form.text], ?_⟩
      exact Finder.maskFrom_cons (Literal.exponent_eq_zero_of_not_decimal (by decide) before _)

/-- Whether an atom may come right after a form. -/
def Form.leads : Form → Bool
  | .sign s => s.leads
  | .atom _ _ => false

theorem placed_leads {ready : Bool} {form : Form} {forms : List Form}
    (hplaced : placed ready (form :: forms) = true) : placed form.leads forms = true := by
  cases form with
  | sign s => exact hplaced
  | atom negative core =>
      rw [placed, Bool.and_eq_true] at hplaced
      exact hplaced.2

theorem headIs_of_leads {form : Form} (hleads : form.leads = true) (before : Text) :
    headIs (fun c => isWord c || c == '.') (form.text.reverse ++ before) = false := by
  cases form with
  | sign s => cases s <;> rfl
  | atom negative core => cases hleads

/-- A number ends where its atom does. -/
theorem headIs_after_number {forms : List Form} {t : Text} (h : Formed forms t)
    (hplaced : placed false forms = true) :
    headIs (fun c => isDecimal c || c == '.' || c == 'e' || c == 'E') t = false := by
  refine headIs_formed (fun c hc => ?_) (fun s => ?_) h hplaced
  · simpa using @of_isSpace
      (fun c => !(isDecimal c || c == '.' || c == 'e' || c == 'E')) (by decide) c hc
  · cases s <;> decide

theorem Masks.of_plain {literals : List Text} {token : Token} {form : Form}
    (h : Masks literals false token form) (hplain : ∀ n, token = .number n → n.exponent = none)
    (extra : List Text) : Masks (literals ++ extra) true token form := by
  cases h with
  | sign s => exact .sign s
  | word w => exact .word w
  | string hget => exact (Masks.string hget).extend extra
  | number n _ => exact .number n fun _ => hplain n rfl
  | exponent hall => cases hall

/-- A form that stands for no number with an exponent is passed over. -/
theorem exponent_stays {literals : List Text} {token : Token} {form : Form} {forms : List Form}
    {t before : Text} {ready : Bool} (hmask : Masks literals false token form)
    (hplain : ∀ n, token = .number n → n.exponent = none) (h : Formed forms t)
    (hplaced : placed ready (form :: forms) = true)
    (hbefore : ready = true → headIs (fun c => isWord c || c == '.') before = false) :
    exponent.maskFrom before 0 (form.text ++ t) literals =
      (exponent.maskFrom (form.text.reverse ++ before) 0 t literals).prepend form.text := by
  cases hmask with
  | sign s =>
      refine Finder.maskFrom_cons (Literal.exponent_eq_zero_of_not_decimal ?_ before t)
      cases s <;> decide
  | word w =>
      apply Finder.maskFrom_of_forall
      intro c hc before rest
      have hletters : w.text.all (fun c => !isDecimal c) = true := by cases w <;> decide
      have hc' := List.all_eq_true.mp hletters c hc
      exact Literal.exponent_eq_zero_of_not_decimal (by simpa using hc') before rest
  | @string s place _ =>
      apply Finder.maskFrom_pass
      intro i hi
      exact Literal.exponent_respects.passes before place t i hi
  | number n _ =>
      rw [placed, Bool.and_eq_true] at hplaced
      obtain ⟨before', lead, hbefore', hlead, hreverse, hatom⟩ :=
        exponent_atom n.negative n.core (hbefore hplaced.1) t literals
      have hstop := headIs_after_number h hplaced.2
      rw [hatom, exponent_plain (hplain n rfl) hbefore' hstop, ← hreverse]
      simp [Literal.Masked.prepend, hlead]
  | exponent hall => cases hall

/-- A number with an exponent gives way to a mark, up to its minus. -/
theorem exponent_found {n : Number} {e : Exponent} (hsome : n.exponent = some e) {before t : Text}
    (hbefore : headIs (fun c => isWord c || c == '.') before = false)
    (hnext : headIs isDecimal t = false) (literals : List Text) :
    ∃ before', exponent.maskFrom before 0 ((Form.atom n.negative n.core).text ++ t) literals =
      (exponent.maskFrom before' 0 t (literals ++ [n.core])).prepend
        (Form.atom n.negative (mark literals.length)).text := by
  obtain ⟨before', lead, hbefore', hlead, _, hatom⟩ :=
    exponent_atom n.negative n.core hbefore t literals
  have hne : n.core ≠ [] := by
    simpa [Number.core, Number.mantissa] using fun hnil => absurd hnil n.whole_isDigits.1
  refine ⟨n.core.reverse ++ before', ?_⟩
  rw [hatom, Finder.maskFrom_found hne (exponent_core hsome hbefore' hnext), hlead]
  simp [Literal.Masked.prepend]

/-- Numbers with exponents give way to marks, and all else stays. -/
theorem exponent_formed {forms : List Form} {t : Text} (h : Formed forms t) {tokens : List Token}
    {literals : List Text} (hmasks : List.Forall₂ (Masks literals false) tokens forms)
    {ready : Bool} (hplaced : placed ready forms = true) {before : Text}
    (hbefore : ready = true → headIs (fun c => isWord c || c == '.') before = false) :
    ∃ forms' extra t', exponent.maskFrom before 0 t literals = ⟨t', literals ++ extra⟩ ∧
      Formed forms' t' ∧ List.Forall₂ (Masks (literals ++ extra) true) tokens forms' := by
  induction h generalizing tokens literals ready before with
  | nil =>
      cases hmasks
      exact ⟨[], [], [], by simp [Finder.maskFrom], .nil, .nil⟩
  | @space c hc forms t h ih =>
      have hdecimal := isDecimal_of_isBlank c (isBlank_of_isSpace hc)
      have hzero := Literal.exponent_eq_zero_of_not_decimal hdecimal before t
      obtain ⟨forms', extra, t', hmask, hformed, hforms⟩ :=
        @ih tokens literals hmasks ready hplaced (c :: before) fun _ => isWord_of_isSpace hc
      refine ⟨forms', extra, c :: t', ?_, .space hc hformed, hforms⟩
      rw [Finder.maskFrom_cons hzero, hmask]
      rfl
  | @form form forms t h ih =>
      obtain _ | @⟨token, _, tokens, _, hmask, hmasks⟩ := hmasks
      have hplaced' := placed_leads hplaced
      by_cases hplain : ∀ n, token = .number n → n.exponent = none
      · obtain ⟨forms', extra, t', hrest, hformed, hforms⟩ :=
          ih hmasks hplaced' fun hleads => headIs_of_leads hleads before
        refine ⟨form :: forms', extra, form.text ++ t', ?_, .form form hformed,
          .cons (hmask.of_plain hplain extra) hforms⟩
        rw [exponent_stays hmask hplain h hplaced hbefore, hrest]
        rfl
      · push Not at hplain
        obtain ⟨n, rfl, hexponent⟩ := hplain
        obtain ⟨e, hsome⟩ := Option.ne_none_iff_exists'.mp hexponent
        cases hmask with
        | exponent hall => cases hall
        | number =>
            rw [placed, Bool.and_eq_true] at hplaced
            have hnext : headIs isDecimal t = false := by
              have hafter := headIs_after_number h hplaced.2
              cases t with
              | nil => rfl
              | cons c cs => simp_all
            obtain ⟨before', hfound⟩ := exponent_found hsome (hbefore hplaced.1) hnext literals
            obtain ⟨forms', extra, t', hrest, hformed, hforms⟩ :=
              @ih tokens (literals ++ [n.core])
                (hmasks.imp fun _ _ hmask => hmask.extend [n.core]) false hplaced.2 before' (by simp)
            rw [List.append_assoc, List.singleton_append] at hrest hforms
            refine ⟨.atom n.negative (mark literals.length) :: forms', n.core :: extra, _, ?_,
              .form _ hformed, .cons (.exponent rfl (by simp)) hforms⟩
            rw [hfound, hrest]
            rfl

theorem finders_json :
    Literal.finders .javascript (some "json".toList) = [quoted .javascript, exponent] := by
  rfl

/-- Masking leaves a form for every token. -/
theorem mask_written {tokens : List Token} {t : Text} (h : Written tokens t)
    (hends : ∀ s, .string s ∈ tokens → ¬s.EndsInBackslash)
    (hplaced : wellPlaced true tokens = true) :
    ∃ forms literals t', Literal.mask .javascript (some "json".toList) t = ⟨t', literals⟩ ∧
      Formed forms t' ∧ placed true forms = true ∧
      List.Forall₂ (Masks literals true) tokens forms := by
  obtain ⟨forms, literals, t₁, hquoted, hformed, hforms⟩ := quoted_written h hends [] []
  rw [List.nil_append] at hquoted hforms
  have hready : placed true forms = true := by rw [placed_of_masks hforms, hplaced]
  obtain ⟨forms', extra, t₂, hexponent, hformed', hforms'⟩ :=
    @exponent_formed _ _ hformed _ _ hforms _ hready [] (by simp)
  have hready' : placed true forms' = true := by rw [placed_of_masks hforms', hplaced]
  refine ⟨forms', literals ++ extra, t₂, ?_, hformed', hready', hforms'⟩
  rw [Literal.mask, finders_json]
  simp only [List.foldl_cons, List.foldl_nil, Finder.run, hquoted, hexponent]

end SourceLayout.Json
