import Rebind.Injection.Statements
import Rebind.Source.ClassBody

/-!
# View holders

The fields of a holder are looked up in its constructor, right behind the call of the base's.  The
inner classes of a file that are holders get the look-ups of the fields they declare.
-/

namespace Rebind

open Pattern

def holderConstructor : Pattern :=
  seq [keyword "public", word, blanks, lit "(", butNot ')', keyword "View", word,
    butNot ')', lit ")", blanks, lit "\x7b"]

def superCall : Pattern := seq [lit "super", blanks, parameters, blanks, lit ";"]

/-- where code goes into a constructor whose body starts at `start`: behind the call of the base's
if the body has one, else at its start -/
def constructorPoint (code : Text) (start : Nat) : Nat :=
  let body := match closingBrace 1 (code.drop start) with
    | some n => (code.drop start).take n
    | none => []
  match superCall.search body with
  | some s => start + s.stop
  | none => start

def putInConstructor (block code : Text) (start : Nat) : Text :=
  insertAt (constructorPoint code start) ('\n' :: block) code

/-- the code with `block` in the first constructor that takes a view -/
def injectInHolder (block code : Text) : Text :=
  if block.isEmpty then code
  else
    match holderConstructor.search code with
    | some m => putInConstructor block code m.stop
    | none => code

/-- the code with `block` in the first constructor that takes a view between `start` and `stop`, if
there are no look-ups there -/
def injectInConstructor (code : Text) (start stop : Nat) (block : Text) : Text :=
  let content := (code.drop start).take (stop - start)
  if occursIn lookupComment content then code
  else
    match holderConstructor.search content with
    | some m => putInConstructor block code (start + m.stop)
    | none => code

/-! ## inner holders -/

/-- the bound fields that are declared between `start` and `stop` -/
def fieldsDeclared (code : Text) (start stop : Nat) (views : List BindView) :
    Except Fault (List BindView) :=
  let content := (code.drop start).take (stop - start)
  views.filterM (fun b => do
    let name ← b.name.written "name"
    let type ← b.type.written "type"
    return occursIn (type ++ ' ' :: name ++ [';']) content)

def InnerClass.isHolder (c : InnerClass) : Bool :=
  occursIn "Holder" c.name && (occursIn "BaseHolder" c.parent || occursIn "RecyclerView" c.parent)

def injectInner (views : List BindView) (code : Text) (c : InnerClass) : Except Fault Text := do
  if !c.isHolder then return code
  if occursIn lookupComment ((code.drop c.start).take (c.stop - c.start)) then return code
  let fields ← fieldsDeclared code c.start c.stop views
  if fields.isEmpty then return code
  let block ← holderBlock { bindViews := .given fields, clicks := .given [] }
  return injectInConstructor code c.start c.stop block

/-- the code with the look-ups of all inner holders, which are where they were before the first of
them was extended -/
def injectInnerHolders (f : Findings) (code : Text) : Except Fault Text :=
  (innerClasses code).foldlM (injectInner f.bindViews.items) code

end Rebind
