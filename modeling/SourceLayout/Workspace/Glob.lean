import SourceLayout.Text.Spelling

/-!
# Glob patterns

`*` stands for any text, `?` for any character and `[...]` for one of a class; a class that starts
with `!` is complemented. Slashes and line ends are not special.
-/

namespace SourceLayout.Glob

/-- The characters of a class: those listed, and those between two others. -/
structure CharClass where
  complement : Bool
  singles : Spelling
  ranges : List (Sign × Sign)
  deriving DecidableEq, Repr

def CharClass.has (set : CharClass) (c : Char) : Bool :=
  let listed := .char c ∈ set.singles ∨
    set.ranges.any fun range => range.1.code ≤ c.toNat && c.toNat ≤ range.2.code
  if set.complement then !listed else listed

inductive Token where
  | exact (sign : Sign)
  | any
  | star
  | class (set : CharClass)
  | never
  deriving DecidableEq, Repr

/-- Cuts the text of a class at the hyphens that make ranges: the first one at or behind `least`,
then each one that has two characters or more before it. -/
def chunksFrom : Nat → Nat → Spelling → List Spelling
  | 0, _, text => [text]
  | fuel + 1, least, text =>
      let tail := text.drop least
      let run := tail.takeWhile (· ≠ .char '-')
      if run.length = tail.length then [text]
      else (text.take least ++ run) :: chunksFrom fuel 2 (tail.drop (run.length + 1))

/-- A hyphen at the end stands for itself. -/
def keepLastHyphen : List Spelling → List Spelling
  | [] => []
  | [chunk] => [chunk]
  | [chunk, []] => [chunk ++ [.char '-']]
  | chunk :: chunks => chunk :: keepLastHyphen chunks

/-- Takes out the ranges whose ends are in the wrong order, the last ones first. -/
def dropEmptyRanges : List Spelling → List Spelling
  | [] => []
  | chunk :: chunks =>
      match dropEmptyRanges chunks with
      | [] => [chunk]
      | next :: others =>
          match chunk.getLast?, next.head? with
          | some low, some high =>
              if high.code < low.code then (chunk.dropLast ++ next.drop 1) :: others
              else chunk :: next :: others
          | _, _ => chunk :: next :: others

def chunks (text : Spelling) : List Spelling :=
  let least := if text.head? = some (.char '!') then 2 else 1
  dropEmptyRanges (keepLastHyphen (chunksFrom text.length least text))

def rangesOf : List Spelling → List (Sign × Sign)
  | chunk :: next :: others =>
      match chunk.getLast?, next.head? with
      | some low, some high => (low, high) :: rangesOf (next :: others)
      | _, _ => rangesOf (next :: others)
  | _ => []

/-- The class with a text between its brackets. -/
def classToken (text : Spelling) : Token :=
  let chunks := chunks text
  match chunks.flatten with
  | [] => .never
  | [.char '!'] => .any
  | .char '!' :: singles => .class ⟨true, singles, rangesOf chunks⟩
  | singles => .class ⟨false, singles, rangesOf chunks⟩

/-- The text of a class after its opening bracket, and the pattern after it. A closing bracket in
the first place does not close the class. -/
def classText? (pattern : Spelling) : Option (Spelling × Spelling) :=
  let mark := pattern.takeWhile (· == .char '!') |>.take 1
  let first := (pattern.drop mark.length).takeWhile (· == .char ']') |>.take 1
  let lead := mark ++ first
  let body := (pattern.drop lead.length).takeWhile (· ≠ .char ']')
  match pattern.drop (lead.length + body.length) with
  | _ :: rest => some (lead ++ body, rest)
  | [] => none

/-- The tokens of a pattern, passing over the next `skip` characters first. -/
def tokensFrom : Nat → Spelling → List Token
  | _, [] => []
  | skip + 1, _ :: signs => tokensFrom skip signs
  | 0, sign :: signs =>
      match sign with
      | .char '*' => .star :: tokensFrom 0 signs
      | .char '?' => .any :: tokensFrom 0 signs
      | .char '[' =>
          match classText? signs with
          | some (text, _) => classToken text :: tokensFrom (text.length + 1) signs
          | none => .exact sign :: tokensFrom 0 signs
      | _ => .exact sign :: tokensFrom 0 signs

def tokens (pattern : Spelling) : List Token :=
  tokensFrom 0 pattern

/-- Whether a token stands for one character and that character is `c`. -/
def Token.has : Token → Char → Bool
  | .exact sign, c => sign == .char c
  | .any, _ => true
  | .class set, c => set.has c
  | .star, _ => false
  | .never, _ => false

/-- For every place, whether the flag is set there or further on. -/
def setFrom (flags : List Bool) : List Bool :=
  flags.foldr (fun flag done => (flag || done.headD false) :: done) []

/-- For the text and then for each of its tails, whether the tokens fit it as a whole. -/
def fitTails : List Token → Text → List Bool
  | [], text => text.map (fun _ => false) ++ [true]
  | .star :: rest, text => setFrom (fitTails rest text)
  | token :: rest, text =>
      List.zipWith (fun c fit => token.has c && fit) text ((fitTails rest text).drop 1) ++ [false]

/-- Whether a whole text fits a pattern. -/
def fits (pattern : Spelling) (text : Text) : Bool :=
  (fitTails (tokens pattern) text).headD false

end SourceLayout.Glob
