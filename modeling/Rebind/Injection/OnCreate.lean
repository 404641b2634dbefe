import Rebind.Injection.Statements
import Rebind.Note
import Rebind.Pattern.Search
import Rebind.Source.Braces

/-!
# Code injected into `onCreate` and other methods

`addInitialiserCalls` puts calls of the initialisers behind the content view of `onCreate`;
`injectInOnCreate` puts a whole block there; `injectInMethods` looks for any method that will do.
A block is never put where its statements stand already (`isInjected`).
-/

namespace Rebind

open Pattern

def statementsOf (block : Text) : List Text :=
  ((lines block).map trim).filter (fun l => !l.isEmpty && !"//".toList.isPrefixOf l)

def isInjected (code block : Text) : Bool :=
  block.isEmpty || (statementsOf block).all (occursIn · code)

def contentViewStatement : Pattern :=
  seq [lit "setContentView", blanks, parameters, blanks, lit ";"]

/-! ## calls of the initialisers -/

def onCreateHeader : Pattern :=
  seq [keyword "protected", keyword "void", lit "onCreate", blanks, parameters, blanks, lit "\x7b"]

/-- the end of the body that starts at `start`: its closing brace, or `start` itself if it has
none -/
def bodyEnd (code : Text) (start : Nat) : Nat :=
  match closingBrace 1 (code.drop start) with
  | some i => start + i
  | none => start

def missingCalls (hasViews hasListener : Bool) : Text :=
  (if hasViews then [] else "\n        initViews();".toList)
    ++ (if hasListener then [] else "\n        initListener();".toList)

/-- the code with the missing calls of the initialisers in `onCreate`: behind its content view, or
at its end -/
def addInitialiserCalls (code : Text) : Traced Text := do
  .note .startCalls
  match onCreateHeader.search code with
  | none =>
    .note .noOnCreate
    return code
  | some m =>
    .note (.onCreateAt m.start m.stop)
    let stop := bodyEnd code m.stop
    let body := (code.drop m.stop).take (stop - m.stop)
    let hasViews := occursIn "initViews();" body
    let hasListener := occursIn "initListener();" body
    if hasViews && hasListener then
      .note .callsPresent
      return code
    match contentViewStatement.searchBetween code m.stop stop with
    | some c =>
      .note (.callsAfterContentView c.stop)
      return insertAt c.stop (missingCalls hasViews hasListener) code
    | none =>
      .note .callsAtEnd
      return insertAt stop (missingCalls hasViews hasListener) code

/-! ## blocks of code -/

def onCreateMethod : Pattern :=
  seq [blanks, lit "@Override", blanks, .maybe (lit "\n"), blanks, keyword "protected",
    keyword "void", lit "onCreate", blanks, parameters, blanks, lit "\x7b"]

def onViewCreatedMethod : Pattern :=
  seq [blanks, lit "@Override", blanks, lit "\n", blanks, keyword "public", keyword "void",
    lit "onViewCreated", blanks, parameters, blanks, lit "\x7b"]

def anyMethod : Pattern :=
  seq [blanks, lit "@Override", blanks, lit "\n", blanks,
    oneOf [lit "public", lit "private", lit "protected"], blanks1, .maybe (keyword "static"), word,
    blanks1, word, blanks, parameters, blanks, lit "\x7b"]

/-- the end of the first block from a signed offset on, quoted stretches not counted; the end of the
code if there is none -/
def methodEnd (code : Text) (start : Int) : Int :=
  match closingBrace 0 (maskQuotes (sliceFrom code start)) with
  | some i => start + i + 1
  | none => code.length

/-- the same, but a closing brace that comes before any opening one ends it, and is not part of
it -/
def onCreateEnd (code : Text) (start : Int) : Int :=
  match blockEnd (maskQuotes (sliceFrom code start)) with
  | some i => start + i
  | none => code.length

/-- the code with `block` behind the content view that follows the header of `onCreate`, or at the
end of that method -/
def injectInOnCreate (code block : Text) : Traced Text := do
  .note .tryOnCreate
  .note (.injectedLength block.length)
  match onCreateMethod.search code with
  | none =>
    .note .noOnCreate
    return code
  | some m =>
    .note (.onCreateAt m.start m.stop)
    .note (.onCreateHeader m.text)
    match contentViewStatement.searchFrom m.stop none (code.drop m.stop) with
    | some c =>
      .note (.afterContentView c.stop)
      if isInjected (code.take c.stop) block then
        .note .alreadyInjected
        return code
      .note .injectingAfterContentView
      let result := insertAt c.stop ("\n" ++ block ++ "\n".toList) code
      .note (.resultLength result.length)
      return result
    | none =>
      let stop := (onCreateEnd code m.stop).toNat
      .note (.atOnCreateEnd stop)
      if m.stop < stop then
        if isInjected (code.take stop) block then
          .note .alreadyInjected
          return code
        .note .injectingAtOnCreateEnd
        let result := insertAt stop ("\n" ++ block ++ "\n    ".toList) code
        .note (.resultLength result.length)
        return result
      return code

/-- the code with `block` at the end of the method whose header stops at `start`, if it is not
there -/
def injectAt? (code block : Text) (start : Nat) : Option Text :=
  let stop := (methodEnd code start).toNat
  if start < stop && !isInjected (code.take stop) block then
    some (insertAt stop ("\n" ++ block ++ "\n    ".toList) code)
  else none

def injectInMethod (p : Pattern) (code block : Text) : Text :=
  ((p.search code).bind (fun m => injectAt? code block m.stop)).getD code

def isCapital (c : Char) : Bool := 'A' ≤ c && c ≤ 'Z'

/-- the content of a method without accessors, constructors and private methods -/
def isSuitable (content : Text) : Bool :=
  !(seq [oneOf [lit "get", lit "set"], .one isCapital]).found content
    && !(seq [keyword "public", word, blanks, lit "("]).found content
    && !(seq [keyword "private", word, blanks1, word, blanks, lit "("]).found content

def injectInAnyMethod (code block : Text) : Text :=
  ((anyMethod.findAll code).findSome? (fun m =>
    let stop := (methodEnd code m.stop).toNat
    if m.stop < stop && isSuitable ((code.drop m.stop).take (stop - m.stop)) then
      injectAt? code block m.stop
    else none)).getD code

/-- the code with `block` in `onCreate`, else in `onViewCreated`, else in any suitable method -/
def injectInMethods (code block : Text) : Text :=
  let code := injectInMethod onCreateMethod code block
  let code := if isInjected code block then code else injectInMethod onViewCreatedMethod code block
  if isInjected code block then code else injectInAnyMethod code block

def braceAtLineEnd : Pattern := seq [blanks, lit "\x7d", blanks, .lineEnd]

/-- the code with a new method that holds `block` before the first closing brace at the end of a
line -/
def createInitialiser (code block : Text) : Text :=
  match braceAtLineEnd.search code with
  | none => code
  | some m =>
    insertAt m.start
      ("\n    private void initializeViews() \x7b\n" ++ block ++ "\n    \x7d\n".toList) code

end Rebind
