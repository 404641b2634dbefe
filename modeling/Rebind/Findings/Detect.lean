import Rebind.Findings.Basic
import Rebind.Source.Comments
import Rebind.Source.Method

/-!
# Reading findings off a source file

`Findings.detect` lists the annotated fields and methods of a source text, whether it binds and
imports the library, its first class and its methods.  Field and click annotations are looked for
outside comments (`withoutComments`), long-click annotations everywhere.
-/

namespace Rebind

open Pattern

/-! ## the annotations -/

def resourceId : Pattern := seq [lit "R", .maybe (lit "2"), lit ".id.", word]

def annotatedField : Pattern :=
  seq [lit "@BindView", blanks, lit "(", blanks, .group 1 resourceId, blanks, lit ")", blanks1,
    .maybe accessModifier, .group 2 word, blanks1, .group 3 word, blanks, lit ";"]

def resourceIds : Pattern :=
  seq [resourceId, .many (seq [blanks, lit ",", blanks, resourceId])]

/-- a click handler: the groups are its resources and its name -/
def annotatedClick : Pattern :=
  seq [lit "@OnClick", blanks, lit "(", blanks, .maybe (seq [lit "\x7b", blanks]),
    .group 1 (.maybe resourceIds), .maybe (seq [blanks, lit "\x7d"]), blanks, lit ")", blanks,
    .maybe (keyword "public"), .maybe (keyword "void"), .group 2 word, blanks, parameters]

def annotatedLongClick : Pattern :=
  seq [lit "@OnLongClick", blanks, lit "(", blanks, .group 1 (butNot1 ')'), blanks, lit ")", blanks,
    .maybe (keyword "public"), .maybe (keyword "boolean"), .group 2 word, blanks, parameters]

def bindCallStatement : Pattern :=
  seq [lit "ButterKnife.bind", blanks, lit "(", blanks, lit "this", blanks, lit ")",
    blanks, lit ";"]

def libraryImport (cls : String) : Pattern :=
  seq [keyword "import", lit "butterknife.", lit cls, blanks, lit ";"]

def classHeader : Pattern :=
  seq [keyword "class", .group 1 word, .maybe (seq [blanks1, keyword "extends", .group 2 word]),
    .maybe (seq [blanks1, keyword "implements", .group 3 (butNot1 '\x7b')])]

def mentionsButterKnife (code : Text) : Bool :=
  occursIn "@BindView" code || occursIn "@OnClick" code || occursIn "@OnLongClick" code
    || occursIn "ButterKnife.bind" code

def lineWith (code part : Text) : Slot Text :=
  match (lines code).find? (occursIn part) with
  | some l => .given (trim l)
  | none => .null

/-! ## the findings -/

def BindView.ofMatch (code : Text) (m : Match) : BindView where
  id := .given (trim (m.group 1))
  type := .given (trim (m.group 2))
  name := .given (trim (m.group 3))
  line := lineWith code (m.group 1)

def splitIds (t : Text) : List Text :=
  if isBlankText t then [] else (splitAll ',' t).map trim

def Handler.ofMatch (code : Text) (m : Match) : Handler :=
  let method := trim (m.group 2)
  let view := viewParameter code method
  { ids := .given (splitIds (m.group 1))
    method := .given method
    takesView := .given view.isSome
    viewType := .given (view.getD [])
    line := lineWith code (m.group 1) }

def detectBindViews (code : Text) : List BindView :=
  (annotatedField.findAll (withoutComments code)).map (BindView.ofMatch code)

def detectClicks (code : Text) : List Handler :=
  (annotatedClick.findAll (withoutComments code)).map (Handler.ofMatch code)

def detectLongClicks (code : Text) : List Handler :=
  (annotatedLongClick.findAll code).map (Handler.ofMatch code)

def detectImports (code : Text) : List (Text × Value) :=
  [("bindview", .bool ((libraryImport "BindView").found code)),
   ("onclick", .bool ((libraryImport "OnClick").found code)),
   ("onlongclick", .bool ((libraryImport "OnLongClick").found code)),
   ("butterknife", .bool ((libraryImport "ButterKnife").found code))]

def Slot.ofGroup : Option Text → Slot Text
  | some (c :: t) => .given (c :: t)
  | _ => .null

/-- the first class of the text, no entry at all if there is none -/
def detectClass (code : Text) : ClassInfo :=
  match classHeader.search code with
  | none => {}
  | some m =>
    { name := .given (m.group 1)
      parent := .ofGroup (m.group? 2)
      interfaces := match Slot.ofGroup (m.group? 3) with
        | .given t => .given (trim t)
        | s => s }

def Findings.none : Findings where
  hasButterKnife := .given (.bool false)
  bindViews := .given []
  clicks := .given []
  longClicks := .given []
  bindCall := .given (.bool false)
  imports := .given [("bindview", .bool false), ("onclick", .bool false),
    ("onlongclick", .bool false), ("butterknife", .bool false)]
  classInfo := .given {}
  methods := .given []

def Findings.detect (code : Text) : Findings :=
  if mentionsButterKnife code then
    { hasButterKnife := .given (.bool true)
      bindViews := .given (detectBindViews code)
      clicks := .given (detectClicks code)
      longClicks := .given (detectLongClicks code)
      bindCall := .given (.bool (bindCallStatement.found code))
      imports := .given (detectImports code)
      classInfo := .given (detectClass code)
      methods := .given (methodNames code) }
  else .none

def annotationMarks : List Text :=
  ["@BindView".toList, "@OnClick".toList, "@OnLongClick".toList, "ButterKnife.bind".toList]

/-- the findings of any value: only a text has more than the first flag, and a list or a dictionary
has that one if a mark is among its items or keys -/
def Findings.ofSource : Value → Findings
  | .text code => .detect code
  | .list vs =>
    { Findings.none with hasButterKnife := .given (.bool (vs.any (fun v => match v with
        | .text t => annotationMarks.contains t
        | _ => false))) }
  | .dict kvs =>
    { Findings.none with
      hasButterKnife := .given (.bool (kvs.any (fun e => annotationMarks.contains e.1))) }
  | _ => .none

end Rebind
