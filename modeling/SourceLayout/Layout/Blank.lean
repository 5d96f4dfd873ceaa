import SourceLayout.Comment

/-!
# Blank lines and comment lines

Passes over the lines of a document that delete or insert blank lines and move standalone
comments, and change nothing else.
-/

namespace SourceLayout.Layout

/-- Three or more line feeds in a row become two; `run` counts those just passed. -/
def collapseFrom (run : Nat) : Text → Text
  | [] => []
  | c :: cs =>
      if c = '\n' then
        if 2 ≤ run then collapseFrom (run + 1) cs else c :: collapseFrom (run + 1) cs
      else c :: collapseFrom 0 cs

def collapse (text : Text) : Text :=
  collapseFrom 0 text

/-- Of neighbouring blank lines the first one stays. -/
def squeezeFrom (afterBlank : Bool) : List Text → List Text
  | [] => []
  | line :: lines =>
      if line.isEmptyLine && afterBlank then squeezeFrom true lines
      else line :: squeezeFrom line.isEmptyLine lines

def squeeze (lines : List Text) : List Text :=
  squeezeFrom false lines

def endsInBrace (line : Text) : Bool :=
  line.trimRight.endsWith ['}']

/-- Drops the blank lines whose neighbours both end in a closing brace. -/
def dropBetweenBracesFrom (previous : Option Text) : List Text → List Text
  | [] => []
  | line :: lines =>
      let kept := dropBetweenBracesFrom (some line) lines
      if line.isEmptyLine && previous.any endsInBrace && lines.head?.any endsInBrace then kept
      else line :: kept

def dropBetweenBraces (lines : List Text) : List Text :=
  dropBetweenBracesFrom none lines

/-- Lines already aligned, and the indentation of the first of them that is not blank. -/
structure Aligned where
  lines : List Text
  indentation : Option Text

/-- Puts a line above aligned ones. A standalone comment takes the indentation of the code below it,
and the blank lines between the two go. -/
def Aligned.push (marker line : Text) (below : Aligned) : Aligned :=
  if line.isEmptyLine then { below with lines := line :: below.lines }
  else
    match below.indentation with
    | some indentation =>
        if Comment.isMarked marker line.trim then
          ⟨(indentation ++ line.trim) :: below.lines.dropWhile Text.isEmptyLine, some indentation⟩
        else ⟨line :: below.lines, some line.indentation⟩
    | none => ⟨line :: below.lines, some line.indentation⟩

def align (marker : Text) (lines : List Text) : List Text :=
  (lines.foldr (Aligned.push marker) ⟨[], none⟩).lines

/-- A line that ends a block and starts none. -/
def closesBlock (line : Text) : Bool :=
  '}' ∈ line ∧ '{' ∉ line

def isStyleComment (line : Text) : Bool :=
  line.trim.startsWith "/*".toList || line.trim.startsWith "//".toList

/-- The blank lines missing after a line that ends a block, before the lines that follow it. The gap
up to the next rule is two lines, and one more for each comment in it. -/
def missingBlanks (following : List Text) : Nat :=
  let between := following.takeWhile fun line => line.isEmptyLine || isStyleComment line
  match following.drop between.length with
  | [] => 0
  | next :: _ =>
      if next.trim.startsWith ['}'] then 0
      else 2 + between.countP isStyleComment - between.countP Text.isEmptyLine

def spaceBlocks : List Text → List Text
  | [] => []
  | line :: lines =>
      let missing := if closesBlock line then missingBlanks lines else 0
      line :: List.replicate missing [] ++ spaceBlocks lines

end SourceLayout.Layout
