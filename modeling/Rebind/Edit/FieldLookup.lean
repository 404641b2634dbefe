import Rebind.Findings.Basic
import Rebind.Edit.Insertion

/-!
# Fields looked up by hand

`@BindView` annotations become plain field declarations, and every field is assigned by a
`findViewById` call in one block of initialisation code.
-/

namespace Rebind.FieldLookup

open Pattern

/-- the resource, type and name of a field, in the order in which they are asked for -/
def parts (b : BindView) : Except Fault (Text × Text × Text) := do
  let type ← b.type.demand "type" .wrongKind
  let name ← b.name.demand "name" .wrongKind
  let id ← b.id.demand "id" .wrongKind
  return (id, type, name)

def declaration (gap : Pattern) (id type name : Text) : Pattern :=
  seq [lit "@BindView", blanks, lit "(", blanks, .text id, blanks, lit ")", gap,
    .maybe accessModifier, .text type, blanks1, .text name, blanks, lit ";"]

/-- the code with the annotations of one field gone: those followed by white space, and if there are
none, those with a line break before the declaration; the declaration is put in as it is, since
types and names are words and hold no sign that a replacement would read as a template -/
def dropMark (code : Text) (b : BindView) : Except Fault Text := do
  let (id, type, name) ← parts b
  let plain : Text := type ++ ' ' :: name ++ [';']
  let result := (declaration blanks1 id type name).replace (fun _ => plain) code
  if result != code then return result
  return (declaration (seq [blanks, lit "\n", blanks]) id type name).replace (fun _ => plain) code

def assignment (b : BindView) : Except Fault Text := do
  let name ← b.name.written "name"
  let id ← b.id.written "id"
  let type ← b.type.written "type"
  return "        " ++ name ++ " = (".toList ++ type ++ ") findViewById(".toList ++ id
    ++ ");".toList

def assignments (views : List BindView) : Except Fault Text :=
  return unlines (← views.mapM assignment)

def assigned (name id : Text) : Pattern :=
  seq [.text name, blanks, lit "=", blanks, restOfLine, lit "findViewById", blanks, lit "(", blanks,
    .text id, blanks, lit ")"]

def isAssigned (code : Text) : List BindView → Except Fault Bool
  | [] => .ok false
  | b :: bs => do
    let name ← b.name.demand "name" .wrongKind
    let id ← b.id.demand "id" .wrongKind
    if (assigned name id).found code then return true
    isAssigned code bs

/-- the code with the assignments put in: into `onCreate`, else into `onViewCreated`, else into a
method of their own -/
def addAssignments (code : Text) (views : List BindView) : Except Fault Text := do
  if views.isEmpty then return code
  let block ← assignments views
  let code := insertInOnCreate code block
  let code := if ← isAssigned code views then code else insertInOnViewCreated code block
  if ← isAssigned code views then return code
  return addMethodAfterClass "initViews" code block

def applies (f : Findings) : Except Fault Bool := return !(← f.bindViews.walked).isEmpty

def edit (f : Findings) (code : Text) : Except Fault Text := do
  if !(← applies f) then return code
  let views ← f.bindViews.walked
  let code ← views.foldlM dropMark code
  addAssignments code views

end Rebind.FieldLookup
