import SourceLayout.Spacing.Colon
import SourceLayout.Spacing.Bracket
import SourceLayout.Literal.Basic

/-!
# Spacing rules

A rule is one named transformation of a line. Here are the rules that several families share and
the makers of the kinds of rule that differ only in their operators and words.
-/

namespace SourceLayout.Spacing

inductive Action where
  | respace (pattern : Pattern)
  | collapse
  | keyColons
  | declarationColons
  | sliceColons
  | keywordArguments

structure Rule where
  id : String
  description : String
  action : Action

def Rule.apply (rule : Rule) (text : Text) : Text :=
  match rule.action with
  | .respace pattern => pattern.respace text
  | .collapse => text.collapse
  | .keyColons => keyColons text
  | .declarationColons => declarationColons text
  | .sliceColons => sliceColons text
  | .keywordArguments => keywordArguments text

def applyAll (rules : List Rule) (text : Text) : Text :=
  rules.foldl (fun text rule => rule.apply text) text

def Rule.pattern (id description : String) (pattern : Pattern) : Rule :=
  ⟨id, description, .respace pattern⟩

/-- Operators of several characters, listed longest first, are tried before single characters. -/
def operatorRule (id : String) (operators : List String) (singles : String) : Rule :=
  .pattern id "One space on each side of every operator"
    [.spaced, .token (operators.map String.toList ++ singles.toList.map fun c => [c]), .spaced]

/-- What may stand, with a space after it, before an operator that has no left operand. -/
def isOperandStart (c : Char) : Bool :=
  c ∈ "([\x7b,;:?=<>!&|+-*/%^~".toList

/-- Whether the text before, nearest character first, ends in a whole word and a space. -/
def endsInWord (words : List String) : Text → Bool
  | ' ' :: before =>
      let word := (before.takeWhile isWord).reverse
      words.any fun w => w.toList == word
  | _ => false

/-- Whether an operator at this place has no left operand. -/
def hasNoLeftOperand (keywords : List String) (before : Text) : Bool :=
  !before.startsWith " ++".toList && !before.startsWith " --".toList &&
    (match before with
      | [] => true
      | c :: rest =>
          c == '(' || c == '[' || c == '{' || (c == ' ' && headIs isOperandStart rest) ||
            endsInWord keywords before)

/-- What an operator without left operand may be drawn to. -/
def startsOperand (c : Char) : Bool :=
  isWord c || c == Literal.markOpen || c ∈ "([.!~$".toList

def unaryRule (id : String) (doubles : List String) (singles : String)
    (keywords : List String) : Rule :=
  .pattern id "Unary operators hug their operand"
    [.look fun before _ => hasNoLeftOperand keywords before,
      .token (doubles.map String.toList ++ singles.toList.map fun c => [c]), .space,
      .ahead startsOperand]

/-- Whether what follows, after one optional space, lets an increment belong to what is before. -/
def endsIncrement (rest : Text) : Bool :=
  let next :=
    match rest with
    | ' ' :: cs => cs
    | _ => rest
  next.isEmpty || next == ['\n'] || headIs (fun c => c ∈ ");,]\x7d:?=+-*/%<>&|^!".toList) next

def postfixRule : Rule :=
  .pattern "postfix-increment" "Postfix ++/-- hug the preceding operand"
    [.after fun c => isWord c || c == Literal.markClose || c == ')' || c == ']',
      .space, .anyOf ["++", "--"], .look fun _ rest => endsIncrement rest]

def commaRule : Rule :=
  .pattern "comma-spacing" "One space after a comma" [.tight, .exactly ",", .spaced]

def semicolonRule : Rule :=
  .pattern "semicolon-spacing" "One space after a semicolon" [.tight, .exactly ";", .spaced]

def openBracketRule : Rule :=
  .pattern "open-bracket-tight" "No space after ( or [" [.oneOf "([", .joined]

def closeBracketRule : Rule :=
  .pattern "close-bracket-tight" "No space before ) or ]" [.joined, .oneOf ")]"]

def collapseRule : Rule :=
  ⟨"collapse-whitespace", "Collapse runs of whitespace to one space and trim both ends", .collapse⟩

/-- Operators that were taken apart before, put together again. -/
def rejoinRules (lead : String) (joins : List (String × Pattern)) : List Rule :=
  let strict := Rule.pattern (lead ++ "-strict-equality") "Re-join '= = =' and '! = =' fragments"
    [.oneOf "=!", .joined, .exactly "=", .joined, .exactly "="]
  let compound := Rule.pattern (lead ++ "-compound-assignment")
    "Re-join '= =', '! =', '< =', '+ =' and similar fragments"
    [.oneOf "=!<>+-*/%&|^", .joined, .exactly "=", .notAhead fun c => c == '=' || c == '>']
  let others := joins.zipIdx.map fun ((operator, pattern), index) =>
    Rule.pattern (lead ++ "-join-" ++ toString index) ("Re-join '" ++ operator ++ "' fragments")
      pattern
  strict :: compound :: others

/-- Two characters with blanks between them. -/
def apart (first second : String) : Pattern :=
  [.exactly first, .joined, .exactly second]

/-- A name, unless it is a keyword, is drawn to the parenthesis after it. -/
def callRule (id description : String) (keywords : List String) : Rule :=
  .pattern id description
    [.notAfter isWord, .run isWord (keywords.map String.toList), .joined, .exactly "("]

/-- One space between a control keyword and its parenthesis. -/
def keywordRule (id : String) (keywords : List String) : Rule :=
  .pattern id "Control keywords are followed by one space"
    [.notAfter isWord, .anyOf keywords, .spaced, .exactly "("]

def emptyBracesRule (id : String) : Rule :=
  .pattern id "Empty braces are tight" [.exactly "\x7b", .joined, .exactly "\x7d"]

def afterBraceRule (id : String) : Rule :=
  .pattern id "One space after \x7b"
    [.exactly "\x7b", .spaced, .ahead fun c => !isBlank c && c != '}']

def closeBraceRule (id : String) : Rule :=
  .pattern id "One space before \x7d"
    [.after fun c => !isBlank c && c != '{', .spaced, .exactly "\x7d"]

end SourceLayout.Spacing
