import Rebind.Text.Basic

/-!
# Source without comments

`withoutComments` drops commented code line by line.  A line with both block-comment marks goes
whole.  A line that opens a block keeps what stands before the mark, one that closes a block keeps
what stands between the first and the second closing mark, unless that is blank; lines inside a
block go. Outside, a line keeps what stands before `//`, unless that is blank, and goes if it starts
with `*`.
-/

namespace Rebind

def keptPart (t : Text) : List Text := if isBlankText t then [] else [t]

/-- what stands between the first and the second occurrence of `mark` -/
def betweenMarks (mark t : Text) : Text :=
  match cut mark t with
  | some (_, after) => upTo mark after
  | none => []

/-- what is kept of a line, and whether a block comment is open after it -/
def commentStep (inBlock : Bool) (line : Text) : List Text × Bool :=
  let opens := occursIn "/*" line
  let closes := occursIn "*/" line
  if opens && closes then ([], inBlock)
  else if opens then (keptPart (upTo "/*" line), true)
  else if closes then (keptPart (betweenMarks "*/" line), false)
  else if inBlock then ([], true)
  else if occursIn "//" line then (keptPart (upTo "//" line), false)
  else if "*".toList.isPrefixOf (trim line) then ([], false)
  else ([line], false)

/-- the kept lines of a text, starting inside a block comment or not -/
def keptLines (inBlock : Bool) (ls : List Text) : List Text :=
  (ls.foldl (fun (s : List Text × Bool) line =>
    let (kept, next) := commentStep s.2 line
    (kept ++ s.1, next)) ([], inBlock)).1.reverse

def withoutComments (t : Text) : Text := unlines (keptLines false (lines t))

end Rebind
