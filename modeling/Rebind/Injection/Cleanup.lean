import Rebind.Injection.OnCreate

/-!
# Leftovers in `onCreate`

Once the initialisers hold the look-ups and listeners, `cleanOnCreate` takes the ones that
`onCreate` still has out of its body.  It marks whole lines:

* a look-up assigned to one of `leftoverViews`;
* a listener, from the line that sets it to the line on which its braces balance;
* a lone closing brace up to five lines below a marked line, unless a listener is set up to ten
  lines above it.
-/

namespace Rebind

def leftoverViews : List Text :=
  ["listview".toList, "tvAll".toList, "tvAlltvAllDeivces".toList, "finddevice".toList,
   "tbCancel".toList, "tvAgent".toList, "tbFind".toList, "view_tvAgent".toList,
   "view_tvapw".toList, "view_tvRefresh".toList, "view_tbFind".toList, "view_tbCancel".toList]

/-- how many lines below the first of `ls` a listener ends: where the braces balance on a line that
closes some, once one was opened -/
def listenerEnd (n : Nat) (count : Int) (opened : Bool) : List Text → Option Nat
  | [] => none
  | l :: ls =>
    let opened := opened || l.contains '\x7b'
    let count := count + braceBalance l
    if l.contains '\x7d' && count == 0 && opened then some n else listenerEnd
      (n + 1) count opened ls

/-- the indices marked so far, latest first, and the notes taken, latest first -/
structure Marks where
  lines : List Nat
  notes : List Note

def anyAbove (n i : Nat) (p : Nat → Bool) : Bool :=
  (List.range' (i - n) (i - (i - n))).any p

/-- the marks after line `i`, of which `below` are the lines from it on, and how many further lines
are settled with it -/
def markLine (ls : Array Text) (marks : Marks) (i : Nat) (line : Text) (below : List Text) :
    Marks × Nat :=
  let t := trim line
  if occursIn "findViewById(" line && line.contains '=' then
    if leftoverViews.contains (trim (t.takeWhile (· != '='))) then
      (⟨i :: marks.lines, .markedLookup t :: marks.notes⟩, 0)
    else (marks, 0)
  else if occursIn "setOnClickListener(" t then
    match listenerEnd 0 0 false below with
    | some n =>
      let marked := (below.take (n + 1)).zipIdx i
      (⟨(marked.map (·.2)).reverse ++ marks.lines,
        (marked.map (fun e => Note.markedListener (trim e.1))).reverse ++ marks.notes⟩, n)
    | none => (marks, 0)
  else if t == "\x7d);".toList || t == "\x7d".toList then
    if anyAbove 5 i marks.lines.contains then
      if anyAbove 10 i (fun j => match ls[j]? with
          | some l => occursIn "setOnClickListener" l
          | none => false) then
        (⟨marks.lines, .keptBrace t :: marks.notes⟩, 0)
      else (⟨i :: marks.lines, .markedBrace t :: marks.notes⟩, 0)
    else (marks, 0)
  else (marks, 0)

/-- the marks of all lines; `skip` lines are settled already -/
def markFrom (ls : Array Text) (marks : Marks) (i : Nat) : Nat → List Text → Marks
  | _, [] => marks
  | skip + 1, _ :: rest => markFrom ls marks (i + 1) skip rest
  | 0, line :: rest =>
    let (marks, skip) := markLine ls marks i line (line :: rest)
    markFrom ls marks (i + 1) skip rest

def markLines (ls : List Text) : Marks := markFrom ls.toArray ⟨[], []⟩ 0 0 ls

def unmarkedLines (marked : List Nat) (ls : List Text) : List Text :=
  (ls.zipIdx.filter (fun e => !marked.contains e.2)).map (·.1)

def cleanOnCreate (code : Text) : Traced Text := do
  .note .cleaning
  match onCreateHeader.search code with
  | none =>
    .note .noOnCreate
    return code
  | some m =>
    let stop := bodyEnd code m.stop
    let ls := lines ((code.drop m.stop).take (stop - m.stop))
    let marks := markLines ls
    (⟨(), marks.notes.reverse⟩ : Traced Unit)
    if marks.lines.isEmpty then
      .note .nothingToClean
      return code
    .note (.removedLines marks.lines.length)
    return code.take m.stop ++ unlines (unmarkedLines marks.lines ls) ++ code.drop stop

end Rebind
