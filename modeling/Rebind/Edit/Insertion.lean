import Rebind.Source.Method

/-!
# Where initialisation code is put

An editor puts its block before the end of the first block inside `onCreate`, else inside
`onViewCreated`, else into a new method behind the line on which the public class ends.  Each
function returns the code unchanged or with one block inserted.
-/

namespace Rebind

open Pattern

def onCreateOverride : Pattern :=
  seq [blanks, lit "@Override", blanks, lit "\n", blanks, keyword "protected", keyword "void",
    lit "onCreate", blanks, parameters, blanks, lit "\x7b"]

def onViewCreatedOverride : Pattern :=
  seq [blanks, lit "@Override", blanks, lit "\n", blanks, keyword "public", keyword "void",
    lit "onViewCreated", blanks, parameters, blanks, lit "\x7b"]

/-- where a block goes into the method whose header `p` finds: before the brace that brings the
count of braces after the header back to zero -/
def insertionPoint (p : Pattern) (code : Text) : Option Nat :=
  (p.search code).bind (fun m => (closingBrace 0 (code.drop m.stop)).map (m.stop + ·))

def insertInOnCreate (code block : Text) : Text :=
  match insertionPoint onCreateOverride code with
  | some k => insertAt k ("\n        " ++ block ++ "\n    ".toList) code
  | none => code

def insertInOnViewCreated (code block : Text) : Text :=
  match insertionPoint onViewCreatedOverride code with
  | some k => insertAt k ("\n" ++ block ++ "\n    ".toList) code
  | none => code

def publicClassLine : Pattern := seq [blanks, keyword "public", keyword "class", word]

/-- the start of the line after the one on which the public class ends -/
def publicClassEnd (code : Text) : Option Nat :=
  (firstLineOffset publicClassLine 0 (lines code)).bind (fun start =>
    (closingBrace 0 (code.drop start)).map (fun i =>
      start + i + ((code.drop (start + i)).takeWhile (· != '\n')).length + 1))

/-- the code with a private method `name` that holds `block`, behind the public class -/
def addMethodAfterClass (name code block : Text) : Text :=
  match publicClassEnd code with
  | some k =>
    insertAt k ("\n    private void " ++ name ++ "() \x7b\n".toList ++ block
      ++ "\n    \x7d\n".toList) code
  | none => code

end Rebind
