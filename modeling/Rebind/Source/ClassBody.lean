import Rebind.Note
import Rebind.Pattern.Search
import Rebind.Source.Braces

/-!
# Class bodies

`classEnd` finds where the first class of a source text ends: the offset just past the closing brace
that matches the brace of its header, comments and quoted stretches not counted (`maskInert`).  A
closing brace behind which another class seems to follow (`classFollows`) is passed over.

`innerClasses` lists the classes that come after the header of the public class.
-/

namespace Rebind

open Pattern

def mainClassHeader : Pattern :=
  seq [.maybe (keyword "public"), keyword "class", word, .few (fun _ => true), lit "\x7b"]

def isPlainBlank (c : Char) : Bool := c == ' ' || c == '\t' || c == '\n' || c == '\r'

/-- another class seems to follow: past the blanks there are at least two characters that do not
start with a closing brace, and they start with `class` or, being more than ten, have it among the
first ten -/
def classFollows (rest : Text) : Bool :=
  let trimmed := trim rest
  let ahead := rest.dropWhile isPlainBlank
  !trimmed.isEmpty && trimmed.head? != some '\x7d' && 2 ≤ ahead.length
    && (ahead.take 5 == "class".toList || (10 < ahead.length && occursIn "class" (ahead.take 10)))

/-- the search for the end of a class: `i` is the offset of what is left, `depth` the number of open
braces, `live` the masked form of the text `code` -/
def classEndFrom (i : Nat) (depth : Int) : Text → Text → Traced (Option Nat)
  | c :: live, _ :: code =>
    if c = '\x7d' then
      if depth = 1 then do
        .note (.classMayEndAt i (code.take 49))
        if classFollows code then
          .note .classFollows
          classEndFrom (i + 1) 0 live code
        else
          .note (.classEndsAt (i + 1))
          return some (i + 1)
      else classEndFrom (i + 1) (depth - 1) live code
    else if c = '\x7b' then classEndFrom (i + 1) (depth + 1) live code
    else classEndFrom (i + 1) depth live code
  | _, _ => pure none

/-- the offset just past the brace that ends the first class -/
def classEnd (code : Text) : Traced (Option Nat) := do
  let header := mainClassHeader.search code
  .note (.classHeader (header.map (fun m => (m.start, m.stop, m.text))))
  match header with
  | none =>
    .note .noClass
    return none
  | some m =>
    .note (.classOpensAt (m.stop - 1))
    let body := code.drop m.stop
    classEndFrom m.stop 1 (maskInert body) body

/-! ## inner classes -/

/-- a class declaration with its extent; the end is just past its closing brace -/
structure InnerClass where
  name : Text
  parent : Text
  start : Nat
  stop : Nat

def classDeclaration : Pattern :=
  seq [keyword "class", .group 1 word,
    .maybe (seq [blanks1, keyword "extends", .group 2 (run1 (fun c => isWord c || c == '.'))])]

def publicClassHeader : Pattern := seq [keyword "public", keyword "class", word]

/-- the classes declared after the header of the first public class, all of them if there is none -/
def innerClasses (code : Text) : List InnerClass :=
  let outer := publicClassHeader.search code
  let inner (m : Match) : Bool := match outer with
    | some o => o.stop < m.start
    | none => true
  ((classDeclaration.findAll code).filter inner).map (fun m =>
    { name := m.group 1
      parent := m.group 2
      start := m.start
      stop := match closingBrace 0 (code.drop m.stop) with
        | some i => m.stop + i + 1
        | none => m.stop })

end Rebind
