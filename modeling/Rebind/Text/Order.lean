import Rebind.Text.Basic

/-!
# The order of texts

Names are listed and sorted by the code points of their first difference; a text stands before every
longer one that it starts.
-/

namespace Rebind

def textLe : Text → Text → Bool
  | [], _ => true
  | _ :: _, [] => false
  | a :: s, b :: t => if a = b then textLe s t else a.toNat ≤ b.toNat

def sortTexts (ts : List Text) : List Text := ts.mergeSort textLe

/-- a sorted list without its repetitions -/
def dropRepeats : List Text → List Text
  | [] => []
  | [t] => [t]
  | t :: u :: ts => if t = u then dropRepeats (u :: ts) else t :: dropRepeats (u :: ts)

def sortedSet (ts : List Text) : List Text := dropRepeats (sortTexts ts)

end Rebind
