import SourceLayout.Json.Reader
import SourceLayout.Proofs.Literal.Finders

/-!
# JSON documents

A document is a tree; its tokens are fixed by the tree, and a text writes the document if it holds
just these tokens, with white space in any place between two of them. Numbers and strings stand for
themselves, character for character. So two texts that write one document have the same tokens and
the same value.
-/

namespace SourceLayout.Json

/-- One digit or more. -/
def IsDigits (t : Text) : Prop :=
  t ≠ [] ∧ ∀ c ∈ t, c.isDigit = true

structure Exponent where
  letter : Char
  sign : Text
  digits : Text
  letter_eq : letter = 'e' ∨ letter = 'E'
  sign_eq : sign = [] ∨ sign = ['+'] ∨ sign = ['-']
  isDigits : IsDigits digits

def Exponent.text (exponent : Exponent) : Text :=
  exponent.letter :: (exponent.sign ++ exponent.digits)

structure Number where
  negative : Bool
  whole : Text
  fraction : Option Text
  exponent : Option Exponent
  whole_isDigits : IsDigits whole
  whole_leading : whole.head? = some '0' → whole = ['0']
  fraction_isDigits : ∀ digits ∈ fraction, IsDigits digits

namespace Number

/-- The digits before the exponent, with the point. -/
def mantissa (number : Number) : Text :=
  number.whole ++ (number.fraction.elim [] fun digits => '.' :: digits)

/-- The number without its sign. -/
def core (number : Number) : Text :=
  number.mantissa ++ number.exponent.elim [] Exponent.text

def text (number : Number) : Text :=
  if number.negative then '-' :: number.core else number.core

end Number

/-- A character of a string as it is written. -/
inductive StringPart where
  | plain (c : Char) (hc : 0x20 ≤ c.toNat ∧ c ≠ '"' ∧ c ≠ '\\')
  | escape (c : Char) (hc : (escaped? c).isSome = true)
  | code (a b c d : Char) (hex : ∀ digit ∈ [a, b, c, d], (hexValue? digit).isSome = true)

def StringPart.text : StringPart → Text
  | .plain c _ => [c]
  | .escape c _ => ['\\', c]
  | .code a b c d _ => ['\\', 'u', a, b, c, d]

abbrev Str := List StringPart

namespace Str

/-- What stands between the quotes. -/
def body (s : Str) : Text :=
  s.flatMap StringPart.text

def text (s : Str) : Text :=
  '"' :: (s.body ++ ['"'])

/-- The last character before the closing quote is a backslash, which is then an escaped one. -/
def EndsInBackslash (s : Str) : Prop :=
  s.body.getLast? = some '\\'

end Str

inductive Word where
  | null
  | truth
  | falsity

def Word.text : Word → Text
  | .null => ['n', 'u', 'l', 'l']
  | .truth => ['t', 'r', 'u', 'e']
  | .falsity => ['f', 'a', 'l', 's', 'e']

inductive Sign where
  | openArray
  | closeArray
  | openObject
  | closeObject
  | comma
  | colon
  deriving DecidableEq

namespace Sign

def char : Sign → Char
  | .openArray => '['
  | .closeArray => ']'
  | .openObject => '{'
  | .closeObject => '}'
  | .comma => ','
  | .colon => ':'

/-- Whether a value or a name may follow. -/
def leads : Sign → Bool
  | .closeArray | .closeObject => false
  | _ => true

end Sign

inductive Token where
  | sign (sign : Sign)
  | word (word : Word)
  | number (number : Number)
  | string (string : Str)

def Token.text : Token → Text
  | .sign s => [s.char]
  | .word w => w.text
  | .number n => n.text
  | .string s => s.text

inductive Tree where
  | word (word : Word)
  | number (number : Number)
  | string (string : Str)
  | array (items : List Tree)
  | object (members : List (Str × Tree))

mutual

def Tree.tokens : Tree → List Token
  | .word word => [.word word]
  | .number number => [.number number]
  | .string string => [.string string]
  | .array items => .sign .openArray :: (itemTokens items ++ [.sign .closeArray])
  | .object members => .sign .openObject :: (memberTokens members ++ [.sign .closeObject])

def itemTokens : List Tree → List Token
  | [] => []
  | item :: items =>
      item.tokens ++ if items.isEmpty then [] else .sign .comma :: itemTokens items

def memberTokens : List (Str × Tree) → List Token
  | [] => []
  | (name, value) :: members =>
      .string name :: .sign .colon ::
        (value.tokens ++ if members.isEmpty then [] else .sign .comma :: memberTokens members)

end

/-- A text that holds some tokens and white space. -/
inductive Written : List Token → Text → Prop
  | nil : Written [] []
  | space {c : Char} (hc : isSpace c = true) {tokens : List Token} {t : Text}
      (h : Written tokens t) : Written tokens (c :: t)
  | token (token : Token) {tokens : List Token} {t : Text} (h : Written tokens t) :
      Written (token :: tokens) (token.text ++ t)

/-- A text that writes a document. -/
def Tree.Writes (tree : Tree) (text : Text) : Prop :=
  Written tree.tokens text

/-! ### Characters of a token -/

theorem of_isSpace {p : Char → Bool} (hall : [' ', '\t', '\n', '\r'].all p = true) {c : Char}
    (hc : isSpace c = true) : p c = true := by
  apply List.all_eq_true.mp hall
  simpa [isSpace, or_assoc] using hc

theorem isBlank_of_isSpace {c : Char} (hc : isSpace c = true) : isBlank c = true :=
  of_isSpace (by decide) hc

theorem isBlank_of_isDigit {c : Char} (hc : c.isDigit = true) : isBlank c = false :=
  WordClass.plain.isBlank_eq_false c (Literal.isWord_of_isDigit hc)

theorem Number.mem_core {number : Number} {c : Char} (hc : c ∈ number.core) :
    c.isDigit = true ∨ c ∈ ['.', 'e', 'E', '+', '-'] := by
  rw [core, mantissa, List.append_assoc, List.mem_append, List.mem_append] at hc
  rcases hc with hwhole | hfraction | hexponent
  · exact .inl (number.whole_isDigits.2 c hwhole)
  · cases hsome : number.fraction with
    | none => simp [hsome] at hfraction
    | some digits =>
        simp only [hsome, Option.elim_some, List.mem_cons] at hfraction
        rcases hfraction with rfl | hdigit
        · exact .inr (by simp)
        · exact .inl ((number.fraction_isDigits digits hsome).2 c hdigit)
  · cases hsome : number.exponent with
    | none => simp [hsome] at hexponent
    | some exponent =>
        simp only [hsome, Option.elim_some, Exponent.text, List.mem_cons, List.mem_append]
          at hexponent
        rcases hexponent with rfl | hsign | hdigit
        · rcases exponent.letter_eq with hletter | hletter <;> exact .inr (by simp [hletter])
        · rcases exponent.sign_eq with hsigned | hsigned | hsigned <;> simp_all
        · exact .inl (exponent.isDigits.2 c hdigit)

theorem Number.core_isBlank {number : Number} {c : Char} (hc : c ∈ number.core) :
    isBlank c = false := by
  rcases number.mem_core hc with hdigit | hsign
  · exact isBlank_of_isDigit hdigit
  · have hsigns : ['.', 'e', 'E', '+', '-'].all (fun c => !isBlank c) = true := by decide
    simpa using List.all_eq_true.mp hsigns c hsign

theorem mem_of_escaped? {c : Char} (hc : (escaped? c).isSome = true) :
    c ∈ ['"', '\\', '/', 'b', 'f', 'n', 'r', 't'] := by
  unfold escaped? at hc
  split at hc <;> simp_all

theorem toNat_of_hexValue? {c : Char} (hc : (hexValue? c).isSome = true) :
    0x30 ≤ c.toNat ∧ c.toNat ≠ '\\'.toNat := by
  have hle : ∀ a b : Char, a ≤ b → a.toNat ≤ b.toNat :=
    fun a b h => UInt32.le_iff_toNat_le.mp (Char.le_def.mp h)
  have hcode : ∀ a b : Char, a ≤ c ∧ c ≤ b → a.toNat ≤ c.toNat ∧ c.toNat ≤ b.toNat :=
    fun a b h => ⟨hle a c h.1, hle c b h.2⟩
  have hranges : '0'.toNat = 0x30 ∧ '9'.toNat = 0x39 ∧ 'a'.toNat = 0x61 ∧ 'f'.toNat = 0x66 ∧
      'A'.toNat = 0x41 ∧ 'F'.toNat = 0x46 ∧ '\\'.toNat = 0x5c := by decide
  rw [hexValue?] at hc
  split at hc
  next h =>
      have hbounds := hcode _ _ h
      omega
  next =>
      split at hc
      next h =>
          have hbounds := hcode _ _ h
          omega
      next =>
          split at hc
          next h =>
              have hbounds := hcode _ _ h
              omega
          next => simp at hc

/-- No control character stands in a string. -/
theorem StringPart.toNat_le {part : StringPart} {c : Char} (hc : c ∈ part.text) :
    0x20 ≤ c.toNat := by
  cases part with
  | plain d hd =>
      obtain rfl : c = d := by simpa [StringPart.text] using hc
      exact hd.1
  | escape d hd =>
      have hescapes : ['"', '\\', '/', 'b', 'f', 'n', 'r', 't'].all (0x20 ≤ ·.toNat) = true := by
        decide
      rw [List.all_eq_true] at hescapes
      simp only [StringPart.text, List.mem_cons, List.not_mem_nil, or_false] at hc
      rcases hc with rfl | rfl
      · decide
      · simpa using hescapes c (mem_of_escaped? hd)
  | code d₁ d₂ d₃ d₄ hex =>
      rw [StringPart.text, List.mem_cons, List.mem_cons] at hc
      rcases hc with rfl | rfl | hdigit
      · decide
      · decide
      · have hcode := (toNat_of_hexValue? (hex c hdigit)).1
        omega

theorem Str.toNat_le {s : Str} {c : Char} (hc : c ∈ s.text) : 0x20 ≤ c.toNat := by
  simp only [text, body, List.mem_cons, List.mem_append, List.mem_flatMap, List.not_mem_nil,
    or_false] at hc
  rcases hc with rfl | ⟨part, _, hpart⟩ | rfl
  · decide
  · exact part.toNat_le hpart
  · decide

theorem Number.text_isBlank {number : Number} {c : Char} (hc : c ∈ number.text) :
    isBlank c = false := by
  rw [text] at hc
  split at hc
  · rcases List.mem_cons.mp hc with rfl | hcore
    · decide
    · exact core_isBlank hcore
  · exact core_isBlank hc

theorem Word.text_isBlank {word : Word} {c : Char} (hc : c ∈ word.text) : isBlank c = false := by
  have hword : word.text.all (fun c => !isBlank c) = true := by
    cases word <;> decide
  simpa using List.all_eq_true.mp hword c hc

theorem Sign.char_isBlank (sign : Sign) : isBlank sign.char = false := by
  cases sign <;> decide

namespace Token

theorem newline_not_mem (token : Token) : '\n' ∉ token.text := by
  intro hmem
  cases token with
  | sign s => cases s <;> simp [text, Sign.char] at hmem
  | word w => exact absurd (w.text_isBlank hmem) (by decide)
  | number n => exact absurd (n.text_isBlank hmem) (by decide)
  | string s => exact absurd (s.toNat_le hmem) (by decide)

theorem text_ne_nil (token : Token) : token.text ≠ [] := by
  cases token with
  | sign s => simp [text]
  | word w => cases w <;> simp [text, Word.text]
  | number n =>
      have hwhole := n.whole_isDigits.1
      rw [text, Number.text]
      split <;> simp [Number.core, Number.mantissa, hwhole]
  | string s => simp [text, Str.text]

/-- A token neither starts nor ends with a blank. -/
theorem headIs_text (token : Token) :
    headIs isBlank token.text = false ∧ headIs isBlank token.text.reverse = false := by
  have hends : ∀ t : Text, (∀ c ∈ t, isBlank c = false) → headIs isBlank t = false := by
    intro t ht
    cases t with
    | nil => rfl
    | cons c cs => exact ht c List.mem_cons_self
  have hboth : (∀ c ∈ token.text, isBlank c = false) →
      headIs isBlank token.text = false ∧ headIs isBlank token.text.reverse = false :=
    fun hall => ⟨hends _ hall, hends _ fun c hc => hall c (List.mem_reverse.mp hc)⟩
  cases token with
  | sign s => exact ⟨s.char_isBlank, s.char_isBlank⟩
  | word w => exact hboth fun c hc => w.text_isBlank hc
  | number n => exact hboth fun c hc => n.text_isBlank hc
  | string s => simp only [text, Str.text, List.reverse_cons, List.reverse_append,
      List.reverse_nil, List.nil_append, List.cons_append, headIs_cons]; decide

end Token

/-! ### Places of values -/

/-- Whether every word, number and string stands at the start or after a sign that leads to it. -/
def wellPlaced (ready : Bool) : List Token → Bool
  | [] => true
  | .sign s :: tokens => wellPlaced s.leads tokens
  | _ :: tokens => ready && wellPlaced false tokens

mutual

theorem Tree.wellPlaced_append (tree : Tree) (rest : List Token) :
    wellPlaced true (tree.tokens ++ rest) = wellPlaced false rest := by
  cases tree with
  | word _ | number _ | string _ => simp [Tree.tokens, wellPlaced]
  | array items =>
      have hitems := wellPlaced_itemTokens items .closeArray rest
      simpa [Tree.tokens, wellPlaced, Sign.leads] using hitems
  | object members =>
      have hmembers := wellPlaced_memberTokens members .closeObject rest
      simpa [Tree.tokens, wellPlaced, Sign.leads] using hmembers

theorem wellPlaced_itemTokens (items : List Tree) (s : Sign) (rest : List Token) :
    wellPlaced true (itemTokens items ++ .sign s :: rest) = wellPlaced s.leads rest := by
  cases items with
  | nil => simp [itemTokens, wellPlaced]
  | cons item items =>
      have hitem := item.wellPlaced_append
      have hitems := wellPlaced_itemTokens items s rest
      rw [itemTokens, List.append_assoc, hitem]
      split
      · simp [wellPlaced]
      · simpa [wellPlaced, Sign.leads] using hitems

theorem wellPlaced_memberTokens (members : List (Str × Tree)) (s : Sign) (rest : List Token) :
    wellPlaced true (memberTokens members ++ .sign s :: rest) = wellPlaced s.leads rest := by
  cases members with
  | nil => simp [memberTokens, wellPlaced]
  | cons member members =>
      obtain ⟨name, value⟩ := member
      have hvalue := value.wellPlaced_append
      have hmembers := wellPlaced_memberTokens members s rest
      have hcolon : Sign.colon.leads = true := rfl
      simp only [memberTokens, List.cons_append, List.append_assoc, wellPlaced, hcolon,
        Bool.true_and, hvalue]
      split
      · simp [wellPlaced]
      · simpa [wellPlaced, Sign.leads] using hmembers

end

theorem Tree.wellPlaced_tokens (tree : Tree) : wellPlaced true tree.tokens = true := by
  have happend := tree.wellPlaced_append []
  rw [List.append_nil] at happend
  rw [happend]
  rfl

theorem wellPlaced_mono {ready : Bool} {tokens : List Token}
    (h : wellPlaced ready tokens = true) : wellPlaced true tokens = true := by
  cases tokens with
  | nil => rfl
  | cons token tokens => cases token <;> simp_all [wellPlaced]

theorem wellPlaced_append {ready : Bool} {tokens rest : List Token}
    (h : wellPlaced ready (tokens ++ rest) = true) :
    wellPlaced ready tokens = true ∧ wellPlaced true rest = true := by
  induction tokens generalizing ready with
  | nil => exact ⟨rfl, wellPlaced_mono h⟩
  | cons token tokens ih =>
      cases token with
      | sign s => exact ih h
      | word _ | number _ | string _ =>
          simp only [List.cons_append, wellPlaced, Bool.and_eq_true] at h ⊢
          exact ⟨⟨h.1, (ih h.2).1⟩, (ih h.2).2⟩

theorem wellPlaced_of_flatten {parts : List (List Token)}
    (h : wellPlaced true parts.flatten = true) : ∀ part ∈ parts, wellPlaced true part = true := by
  induction parts with
  | nil => simp
  | cons part parts ih =>
      rw [List.flatten_cons] at h
      have hboth := wellPlaced_append h
      intro other hother
      rcases List.mem_cons.mp hother with rfl | hother
      · exact hboth.1
      · exact ih hboth.2 other hother

end SourceLayout.Json
