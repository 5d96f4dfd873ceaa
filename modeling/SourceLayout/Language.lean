import SourceLayout.Text.Basic
import SourceLayout.Text.Case

/-!
# Languages

A language identifier names one of nine languages; each belongs to a family, and the family fixes
how lines are spaced, scanned and indented.
-/

namespace SourceLayout

inductive Family where
  | javascript
  | html
  | css
  | python
  | cFamily
  deriving DecidableEq, Repr

def Family.name : Family → String
  | .javascript => "javascript"
  | .html => "html"
  | .css => "css"
  | .python => "python"
  | .cFamily => "c-family"

def Family.all : List Family :=
  [.javascript, .html, .css, .python, .cFamily]

def Family.ofName? (name : String) : Option Family :=
  Family.all.find? fun family => family.name == name

/-- Columns of leading white space that stand for one level. -/
def Family.unitWidth : Family → Nat
  | .python => 4
  | _ => 2

/-- What starts a comment that runs to the end of its line. -/
def Family.commentMarker? : Family → Option Text
  | .python => some ['#']
  | .javascript | .cFamily => some ['/', '/']
  | .html | .css => none

namespace Language

/-- The recognised identifiers with their families, in the order they are listed to users. -/
def families : List (String × Family) :=
  [("javascript", .javascript),
    ("typescript", .javascript),
    ("json", .javascript),
    ("html", .html),
    ("css", .css),
    ("python", .python),
    ("java", .cFamily),
    ("c", .cFamily),
    ("cpp", .cFamily)]

def supported : List String :=
  families.map Prod.fst

/-- The identifiers as one enumeration, as messages show them. -/
def supportedList : String :=
  ", ".intercalate supported

/-- Identifiers are compared without outer blanks and in lower case. -/
def normalize (id : Text) : Text :=
  lower id.trim

def family? (id : Text) : Option Family :=
  (families.find? fun entry => entry.1.toList == normalize id).map Prod.snd

def isSupported (id : Text) : Bool :=
  (family? id).isSome

def suffixes : List (String × String) :=
  [(".js", "javascript"),
    (".mjs", "javascript"),
    (".cjs", "javascript"),
    (".jsx", "javascript"),
    (".ts", "typescript"),
    (".tsx", "typescript"),
    (".json", "json"),
    (".html", "html"),
    (".htm", "html"),
    (".css", "css"),
    (".py", "python"),
    (".pyi", "python"),
    (".java", "java"),
    (".c", "c"),
    (".h", "c"),
    (".cpp", "cpp"),
    (".cc", "cpp"),
    (".cxx", "cpp"),
    (".hpp", "cpp"),
    (".hh", "cpp"),
    (".hxx", "cpp")]

/-- The language of a file suffix; entries of `extra` come before the built-in ones. -/
def ofSuffix? (extra : List (Text × Text)) (suffix : Text) : Option Text :=
  let key := lower suffix
  match extra.find? fun entry => entry.1 == key with
  | some entry => some entry.2
  | none => (suffixes.find? fun entry => entry.1.toList == key).map fun entry => entry.2.toList

end Language

end SourceLayout
