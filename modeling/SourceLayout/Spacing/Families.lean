import SourceLayout.Spacing.Rule

/-!
# The rules of each family, in the order they apply
-/

namespace SourceLayout.Spacing

def javascriptOperators : List String :=
  [">>>=", "===", "!==", "**=", "<<=", ">>=", ">>>", "&&=", "||=", "??=", "=>", "==", "!=", "<=",
    ">=", "&&", "||", "??", "?.", "++", "--", "+=", "-=", "*=", "/=", "%=", "&=", "|=", "^=", "**",
    "<<", ">>"]

def cOperators : List String :=
  ["==", "!=", "<=", ">=", "&&", "||", "++", "--", "+=", "-=", "*=", "/=", "%=", "&=", "|=", "^=",
    "->", "::"]

def pythonOperators : List String :=
  ["**=", "//=", ">>=", "<<=", "==", "!=", "<=", ">=", "->", ":=", "+=", "-=", "*=", "/=", "%=",
    "&=", "|=", "^=", "@=", "**", "//", "<<", ">>"]

def javascriptUnaryKeywords : List String :=
  ["return", "case", "typeof", "void", "delete", "throw", "yield", "await", "in", "of"]

def cUnaryKeywords : List String :=
  ["return", "case", "throw", "sizeof", "else"]

def pythonUnaryKeywords : List String :=
  ["return", "yield", "in", "and", "or", "not", "if", "elif", "else", "while", "assert", "lambda"]

def pythonKeywords : List String :=
  ["and", "as", "assert", "async", "await", "del", "elif", "else", "except", "for", "from",
    "global", "if", "import", "in", "is", "lambda", "nonlocal", "not", "or", "raise", "return",
    "while", "with", "yield", "match", "case"]

def javascriptControlKeywords : List String :=
  ["if", "for", "while", "switch", "catch", "with"]

def cControlKeywords : List String :=
  ["if", "for", "while", "switch", "catch", "return", "synchronized"]

def javascriptRules : List Rule :=
  operatorRule "js-operator-spacing" javascriptOperators "=+-*/%&|^<>!?:" ::
  rejoinRules "js"
    [("&&", apart "&" "&"), ("||", apart "|" "|"), ("=>", apart "=" ">"), ("??", apart "?" "?"),
      ("?:", [.after isWord, .joined, .exactly "?", .joined, .exactly ":"])] ++
  [collapseRule,
    postfixRule,
    unaryRule "js-unary" ["++", "--"] "-+!~" javascriptUnaryKeywords,
    .pattern "js-optional-chaining" "Optional chaining is tight" [.tight, .exactly "?.", .tight],
    commaRule,
    semicolonRule,
    openBracketRule,
    closeBracketRule,
    emptyBracesRule "js-empty-braces",
    afterBraceRule "js-open-brace",
    closeBraceRule "js-close-brace",
    keywordRule "js-keyword-paren" javascriptControlKeywords,
    ⟨"object-colon", "Write key colons as 'key: value' while leaving ternaries alone", .keyColons⟩,
    collapseRule]

/-- The rules of the C family up to the last two. -/
def cFirstRules : List Rule :=
  operatorRule "c-operator-spacing" cOperators "=+-*/%&|^<>!?:" ::
  rejoinRules "c"
    [("&&", apart "&" "&"), ("||", apart "|" "|"), ("->", apart "-" ">"), ("::", apart ":" ":")] ++
  [collapseRule,
    postfixRule,
    unaryRule "c-unary" ["++", "--"] "-+!~*&" cUnaryKeywords,
    .pattern "c-scope-tight" "Scope resolution is tight" [.tight, .exactly "::", .tight],
    commaRule,
    semicolonRule,
    openBracketRule,
    closeBracketRule,
    .pattern "c-empty-brackets" "Empty brackets are tight" [.exactly "[", .tight, .exactly "]"],
    callRule "c-call-tight" "No space between a name and its argument list" cControlKeywords,
    keywordRule "c-keyword-paren" cControlKeywords,
    .pattern "c-open-brace-before" "One space before \x7b" [.spaced, .exactly "\x7b"],
    emptyBracesRule "c-empty-braces",
    afterBraceRule "c-open-brace-after",
    closeBraceRule "c-close-brace"]

def cLastRules : List Rule :=
  [collapseRule,
    .pattern "c-label-colon" "Labels end in a tight colon" [.joined, .exactly ":", .atEnd]]

def memberArrowRule : Rule :=
  .pattern "c-member-arrow" "Pointer member access is tight" [.tight, .exactly "->", .tight]

/-- Member access through a pointer exists in two languages of the family only. -/
def cRules (language : Option Text) : List Rule :=
  if language = some "c".toList ∨ language = some "cpp".toList then
    cFirstRules ++ memberArrowRule :: cLastRules
  else cFirstRules ++ cLastRules

def pythonRules : List Rule :=
  operatorRule "python-operator-spacing" pythonOperators "=+-*/%&|^<>:" ::
  rejoinRules "python"
    [("->", apart "-" ">"), (":=", apart ":" "="), ("**", apart "*" "*"), ("//", apart "/" "/"),
      ("<<", apart "<" "<"), (">>", apart ">" ">")] ++
  [collapseRule,
    unaryRule "python-unary" ["**"] "-+~*" pythonUnaryKeywords,
    .pattern "python-colon" "One space after a colon, none before"
      [.tight, .exactly ":", .notAhead (· == '='), .spaced],
    commaRule,
    semicolonRule,
    callRule "python-call-tight" "No space between a callable and its argument list" pythonKeywords,
    .pattern "python-open-bracket" "No space after an opening bracket" [.oneOf "([\x7b", .joined],
    .pattern "python-close-bracket" "No space before a closing bracket" [.joined, .oneOf ")]\x7d"],
    collapseRule,
    ⟨"python-slice-colon", "Remove spaces around colons directly inside square brackets",
      .sliceColons⟩,
    ⟨"python-keyword-argument", "Drop spaces around '=' for keyword arguments inside parentheses",
      .keywordArguments⟩]

def htmlRules : List Rule :=
  [.pattern "html-attribute-equals" "Attribute '=' is tight" [.tight, .exactly "=", .tight],
    .pattern "html-tag-name" "One space after a tag name"
      [.exactly "<", .run Char.isAlphanum [], .narrowed],
    .pattern "html-closing-tag" "Closing tags are tight"
      [.exactly "<", .tight, .exactly "/", .tight],
    .pattern "html-self-closing" "One space before />" [.narrowed, .exactly "/>"],
    collapseRule]

def cssRules : List Rule :=
  [⟨"css-declaration-colon", "Space 'property: value' pairs without touching selectors",
      .declarationColons⟩,
    .pattern "css-semicolon" "One space after ;" [.tight, .exactly ";", .spaced],
    .pattern "css-open-brace" "One space before \x7b, none after"
      [.spaced, .exactly "\x7b", .tight],
    .pattern "css-close-brace" "No space around \x7d" [.tight, .exactly "\x7d", .tight],
    commaRule,
    collapseRule]

def rules (family : Family) (language : Option Text) : List Rule :=
  match family with
  | .javascript => javascriptRules
  | .cFamily => cRules language
  | .python => pythonRules
  | .html => htmlRules
  | .css => cssRules

end SourceLayout.Spacing
