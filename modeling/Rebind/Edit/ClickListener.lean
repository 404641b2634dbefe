import Rebind.Findings.Basic
import Rebind.Edit.Insertion

/-!
# Click listeners set by hand

`@OnClick` annotations are dropped, and a listener that calls the method is set for every resource
in one block of initialisation code.
-/

namespace Rebind.ClickListener

open Pattern

def plainId : Pattern := seq [lit "R.id.", word]

def clickMark : Pattern :=
  seq [lit "@OnClick", blanks, lit "(", blanks, .maybe (seq [lit "\x7b", blanks]),
    .maybe (seq [plainId, .many (seq [blanks, lit ",", blanks, plainId])]),
    .maybe (seq [blanks, lit "\x7d"]), blanks, lit ")"]

/-- the resources of a handler that has to name its method -/
def idsOf (h : Handler) : Except Fault (List Text) := do
  let ids ← h.ids.require "ids"
  let _ ← h.method.require "method"
  return ids.getD []

def dropMark (code : Text) (h : Handler) : Except Fault Text := do
  if (← idsOf h).isEmpty then return code
  return clickMark.erase code

def viewName (id : Text) : Text := "view_" ++ afterLast '.' id

def listener (method id : Text) : List Text :=
  ["        " ++ viewName id ++ ".setOnClickListener(new View.OnClickListener() \x7b".toList,
   "            @Override".toList,
   "            public void onClick(View v) \x7b".toList,
   "                " ++ method ++ "(v);".toList,
   "            \x7d".toList,
   "        \x7d);".toList,
   []]

def listeners (h : Handler) : Except Fault (List Text) := do
  let ids ← idsOf h
  let method ← h.method.written "method"
  return ids.flatMap (listener method)

def listenerBlock (hs : List Handler) : Except Fault Text :=
  return unlines (← hs.mapM listeners).flatten

def registered (method : Text) : Pattern := seq [lit "setOnClickListener", restOfLine, .text method]

def isRegistered (code : Text) : List Handler → Except Fault Bool
  | [] => .ok false
  | h :: hs => do
    let method ← h.method.demand "method" .wrongKind
    if (registered method).found code then return true
    isRegistered code hs

/-- the code with the listeners put in: into `onCreate`, into `onViewCreated` and into a method of
their own, each unless one of the methods is registered by then -/
def addListeners (code : Text) (hs : List Handler) : Except Fault Text := do
  if hs.isEmpty then return code
  let block ← listenerBlock hs
  let code := insertInOnCreate code block
  let code := if ← isRegistered code hs then code else insertInOnViewCreated code block
  if ← isRegistered code hs then return code
  return addMethodAfterClass "initListener" code block

def applies (f : Findings) : Except Fault Bool := return !(← f.clicks.walked).isEmpty

def edit (f : Findings) (code : Text) : Except Fault Text := do
  if !(← applies f) then return code
  let hs ← f.clicks.walked
  let code ← hs.foldlM dropMark code
  addListeners code hs

end Rebind.ClickListener
