import SourceLayout.Editor.Request
import SourceLayout.Main
import SourceLayout.Proofs.Agreement
import SourceLayout.Proofs.Braces
import SourceLayout.Proofs.Command.Repeat
import SourceLayout.Proofs.CommentLine
import SourceLayout.Proofs.Editor.Independence
import SourceLayout.Proofs.Editor.Offsets
import SourceLayout.Proofs.Editor.Replacement
import SourceLayout.Proofs.Json.Document
import SourceLayout.Proofs.Layout.Alignment
import SourceLayout.Proofs.Layout.Blocks
import SourceLayout.Proofs.Layout.Padding
import SourceLayout.Proofs.Layout.Spans
import SourceLayout.Proofs.NormalForm
import SourceLayout.Proofs.Lowest
import SourceLayout.Proofs.Numbers
import SourceLayout.Proofs.Shape
import SourceLayout.Proofs.Spacing.Conditional
import SourceLayout.Proofs.Spacing.Stack
import SourceLayout.Proofs.Stability.Simple
import SourceLayout.Proofs.Stability.Line
import SourceLayout.Proofs.Stability.Markup
import SourceLayout.Proofs.Workspace.Reported
