import SourceLayout.Spacing.Families
import SourceLayout.Literal.Restore

/-!
# Tidying one line

The code of a line is tidied with its literals masked; its comment keeps its words and loses only
superfluous blanks.
-/

namespace SourceLayout.Line

open Literal (RestoreError)

/-- Tidies code that holds no comment. -/
def tidyCode (family : Family) (language : Option Text) (code : Text) :
    Except RestoreError Text :=
  let code := code.trim
  if code.isEmpty then .ok []
  else
    let masked := Literal.mask family language code
    Literal.restore
      { masked with text := Spacing.applyAll (Spacing.rules family language) masked.text }

/-- Whether a trimmed line belongs to a comment as a whole. -/
def isComment (family : Family) (line : Text) : Bool :=
  match family with
  | .html => line.startsWith "<!--".toList || Text.has "-->".toList line
  | .css => line.startsWith "/*".toList || line.endsWith "*/".toList
  | .python => false
  | .javascript | .cFamily => Comment.isBlockLine line

/-- Comment lines of the markup families stay as they are. -/
def tidyComment (family : Family) (line : Text) : Text :=
  match family with
  | .html | .css => line
  | _ => Comment.normalize line

def tidy (family : Family) (language : Option Text) (line : Text) : Except RestoreError Text :=
  let line := line.trim
  if line.isEmpty then .ok []
  else if isComment family line then .ok (tidyComment family line)
  else do
    let parts := Comment.split family line
    let code ← tidyCode family language parts.code
    if !parts.hasComment then return code
    let comment := Comment.normalize parts.comment
    return if code.isEmpty then comment else code ++ ' ' :: comment

end SourceLayout.Line
