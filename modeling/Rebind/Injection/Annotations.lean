import Rebind.Findings.Basic
import Rebind.Pattern.Search

/-!
# Annotation lines dropped

The lines that findings were read from are taken out of the code: every occurrence of a field's or
click handler's line, and every line that starts with a long-click handler's, with its indentation
and line break.
-/

namespace Rebind

open Pattern

def dropLine (line : Slot Text) (code : Text) : Except Fault Text := do
  return replaceAll (← line.orElse [] .wrongKind) [] code

def lineStartingWith (part : Text) : Pattern :=
  seq [.lineStart, blanks, .text part, blanks, .maybe (lit "\n")]

def dropWholeLine (line : Slot Text) (code : Text) : Except Fault Text := do
  return (lineStartingWith (trim (← line.orElse [] .noOperation))).erase code

def dropAnnotations (f : Findings) (code : Text) : Except Fault Text := do
  let code ← (← f.bindViews.walked).foldlM (fun code b => dropLine b.line code) code
  let code ← (← f.clicks.walked).foldlM (fun code h => dropLine h.line code) code
  (← f.longClicks.walked).foldlM (fun code h => dropWholeLine h.line code) code

end Rebind
