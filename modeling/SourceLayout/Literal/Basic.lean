import SourceLayout.Comment

/-!
# Masking literals

Spans that no spacing rule may touch are cut out of a line and kept in a table; a mark with the
span's number stands in their place. A finder says how long the span is that starts at a place,
and the finders of a family run one after the other, each on the text that the last one left.
-/

namespace SourceLayout.Literal

def markOpen : Char := '\ue000'

def markClose : Char := '\ue001'

/-- What stands in the place of the span with a number. -/
def mark (number : Nat) : Text :=
  markOpen :: Nat.toDigits 10 number ++ [markClose]

/-- A line with marks, and the spans the marks stand for. -/
structure Masked where
  text : Text
  literals : List Text

/-- The length of the span that starts at a place, zero if there is none. The first argument holds
the text before the place, nearest character first, and the second the text from it on. -/
abbrev Finder := Text → Text → Nat

/-- Replaces every span, passing over the next `skip` characters first. -/
def Finder.maskFrom (find : Finder) (before : Text) : Nat → Text → List Text → Masked
  | _, [], literals => ⟨[], literals⟩
  | skip + 1, c :: cs, literals => find.maskFrom (c :: before) skip cs literals
  | 0, c :: cs, literals =>
      match find before (c :: cs) with
      | 0 =>
          let rest := find.maskFrom (c :: before) 0 cs literals
          ⟨c :: rest.text, rest.literals⟩
      | n + 1 =>
          let rest := find.maskFrom (c :: before) n cs (literals ++ [c :: cs.take n])
          ⟨mark literals.length ++ rest.text, rest.literals⟩

def Finder.run (find : Finder) (masked : Masked) : Masked :=
  find.maskFrom [] 0 masked.text masked.literals

/-- Characters up to and including the delimiter, or all of them if it is missing. A delimiter
directly after a backslash does not count. -/
def lengthTo (stop : Char) (previous : Char) : Text → Nat
  | [] => 0
  | c :: cs => if c = stop ∧ previous ≠ '\\' then 1 else lengthTo stop c cs + 1

/-- Quoted strings, and regular expressions with the letters that follow them. -/
def quoted (family : Family) : Finder
  | _, [] => 0
  | before, c :: cs =>
      match family.literalEnd? before.head? c with
      | none => 0
      | some stop =>
          let length := lengthTo stop c cs
          let flags := if c = '/' then (cs.drop length).takeWhile isLetter else []
          length + flags.length + 1

/-- Resource references `url(...)`, in any case. -/
def resource : Finder
  | _, u :: r :: l :: '(' :: cs =>
      if [u, r, l].map Char.toLower = ['u', 'r', 'l'] then
        let inner := cs.takeWhile (· ≠ ')')
        if inner.length < cs.length then inner.length + 5 else 0
      else 0
  | _, _ => 0

/-- The digits, sign and mark of an exponent. -/
def exponentLength : Text → Nat
  | e :: cs =>
      if e = 'e' ∨ e = 'E' then
        match cs with
        | [] => 0
        | sign :: rest =>
            if sign = '-' ∨ sign = '+' then
              match (rest.takeWhile isDecimal).length with
              | 0 => 0
              | n + 1 => n + 3
            else
              match (cs.takeWhile isDecimal).length with
              | 0 => 0
              | n + 1 => n + 2
      else 0
  | [] => 0

/-- Numbers with an exponent that do not continue a word or another number. -/
def exponent : Finder := fun before rest =>
  if headIs (fun c => isWord c || c == '.') before then 0
  else
    let whole := rest.takeWhile isDecimal
    let tail := rest.dropWhile isDecimal
    let fraction :=
      match tail with
      | '.' :: cs => (cs.takeWhile isDecimal).length + 1
      | _ => 0
    if whole.isEmpty then 0
    else
      match exponentLength (tail.drop fraction) with
      | 0 => 0
      | n + 1 => whole.length + fraction + n + 1

/-- The characters an argument list of types may hold. -/
def isTypeListChar (c : Char) : Bool :=
  isWord c || isBlank c || c ∈ [',', '.', '?', ':', '[', ']', '*', '<', '>']

/-- Whether the text before, nearest character first, ends in the word `template` and a space. -/
def afterTemplate (before : Text) : Bool :=
  let word := " etalpmet".toList
  word.isPrefixOf before && !headIs isWord (before.drop word.length)

/-- Argument lists of types, up to the last `>` that their characters reach. -/
def typeList : Finder
  | before, '<' :: cs =>
      if headIs isWord before || afterTemplate before then
        let inner := (cs.takeWhile isTypeListChar).reverse.dropWhile (· ≠ '>')
        if inner.isEmpty then 0 else inner.length + 1
      else 0
  | _, _ => 0

/-- Shift and stream operators, with the `=` of an assignment. -/
def shift : Finder
  | _, '<' :: '<' :: '=' :: _ => 3
  | _, '<' :: '<' :: _ => 2
  | _, '>' :: '>' :: '>' :: '=' :: _ => 4
  | _, '>' :: '>' :: '>' :: _ => 3
  | _, '>' :: '>' :: '=' :: _ => 3
  | _, '>' :: '>' :: _ => 2
  | _, _ => 0

/-- The languages whose argument lists of types are masked. -/
def typeListLanguages : List Text :=
  ["java".toList, "cpp".toList, "typescript".toList]

def finders (family : Family) (language : Option Text) : List Finder :=
  let resources := if family = .css then [resource] else []
  let exponents := if family = .html ∨ family = .css then [] else [exponent]
  let typeLists := if typeListLanguages.any (some · == language) then [typeList] else []
  let shifts := if family = .cFamily then [shift] else []
  quoted family :: (resources ++ exponents ++ typeLists ++ shifts)

def mask (family : Family) (language : Option Text) (code : Text) : Masked :=
  (finders family language).foldl (fun masked find => find.run masked) ⟨code, []⟩

/-- The code of a line with its literals masked, in which braces can be counted. -/
def bareCode (family : Family) (line : Text) : Text :=
  (mask family none (Comment.split family line).code).text

end SourceLayout.Literal
