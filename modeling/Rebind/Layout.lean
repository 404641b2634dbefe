import Rebind.Findings.Codec
import Rebind.Pattern.Search

/-!
# The layout of a source file

Before a migration the layout of a file can be set right: tabs and trailing white space
(`normalizeSpace`), annotations on a line of their own (`splitAnnotations`), the order of the
imports (`sortImports`) and the indentation of fields (`indentFields`).  `layoutIssues` says which
annotations share a line with what they annotate; a file without any is left as it is.
-/

namespace Rebind

open Pattern

/-! ## annotations on a line of their own -/

def fieldOnLine : Pattern :=
  seq [.group 1 blanks, lit "@BindView", blanks, lit "(", blanks, .group 2 (butNot1 ')'), blanks,
    lit ")", blanks1, .group 3 word, blanks1, .group 4 word, blanks, lit ";"]

/-- a handler under the annotation `name`, with the result type `result`: the groups are the
indentation, the resources and the name -/
def handlerOnLine (name result : String) : Pattern :=
  seq [.group 1 blanks, lit name, blanks, lit "(", blanks, .group 2 (butNot1 ')'), blanks, lit ")",
    blanks1, .maybe (keyword "public"), .maybe (keyword result), .group 3 word, blanks, parameters]

def clickOnLine : Pattern := handlerOnLine "@OnClick" "void"

def longClickOnLine : Pattern := handlerOnLine "@OnLongClick" "boolean"

def splitFields (code : Text) : Text :=
  fieldOnLine.replace (fun m =>
    let indent := m.group 1
    indent ++ "@BindView(".toList ++ m.group 2 ++ ")\n".toList ++ indent ++ m.group 3
      ++ ' ' :: m.group 4 ++ [';']) code

/-- the lines after a method's first line that belong to its header: up to the first with an opening
brace, and the one after that if it has one too -/
def headerRest : Text → List Text → List Text
  | _, [] => []
  | prev, l :: ls =>
    if prev.contains '\x7b' then (if l.contains '\x7b' then [l] else []) else l :: headerRest l ls

def headerIn (name : Text) : List Text → Option Text
  | [] => none
  | l :: ls =>
    if occursIn name l && l.contains '(' then some (unlines (l :: headerRest l ls))
    else headerIn name ls

def wholeHeader (code : Text) (start : Int) (name : Text) : Option Text :=
  headerIn name (lines (sliceFrom code start))

/-- the code with the annotations of handlers above the line that names the handler -/
def splitHandlers (p : Pattern) (name : String) (code : Text) : Text :=
  p.replace (fun m =>
    match wholeHeader code m.start (m.group 3) with
    | some header => m.group 1 ++ name.toList ++ '(' :: m.group 2 ++ ")\n".toList ++ header
    | none => m.text) code

def splitClicks (code : Text) : Text := splitHandlers clickOnLine "@OnClick" code

def splitLongClicks (code : Text) : Text := splitHandlers longClickOnLine "@OnLongClick" code

def splitAnnotations (code : Text) : Text := splitLongClicks (splitClicks (splitFields code))

/-! ## lines -/

def normalizeSpace (code : Text) : Text :=
  unlines ((lines (replaceAll "\t" "    " code)).map trimRight)

def isImportLine (line : Text) : Bool :=
  let t := trim line
  t.isEmpty || "import ".toList.isPrefixOf t

def sortLines (ls : List Text) : List Text := ls.mergeSort (fun a b => textLe (trim a) (trim b))

def sortImports (code : Text) : Text :=
  let ls := lines code
  unlines (sortLines (ls.takeWhile isImportLine) ++ ls.dropWhile isImportLine)

def nonFieldStarts : List Text :=
  ["//".toList, "/*".toList, "*".toList, "*/".toList, "import ".toList, "package ".toList,
   "public class".toList, "private ".toList, "protected ".toList]

def isFieldLine (line : Text) : Bool :=
  let t := trim line
  "@BindView".toList.isPrefixOf t
    || (!t.isEmpty && t.contains ';' && !nonFieldStarts.any (·.isPrefixOf t))

def indentField (line : Text) : Text :=
  if isFieldLine line && !"    ".toList.isPrefixOf line then "    " ++ trimLeft line else line

def indentFields (code : Text) : Text := unlines ((lines code).map indentField)

def layOut (code : Text) : Text :=
  indentFields (sortImports (splitAnnotations (normalizeSpace code)))

/-- which annotations share a line with what they annotate, one line each -/
def layoutIssues (code : Text) : List Text :=
  let issue (p : Pattern) (name : String) : List Text :=
    match (p.findAll code).length with
    | 0 => []
    | n => ["发现 " ++ natText n ++ " 个".toList ++ name.toList ++ "注解在同一行，需要格式化".toList]
  issue fieldOnLine "@BindView" ++ issue clickOnLine "@OnClick"
    ++ issue longClickOnLine "@OnLongClick"

end Rebind
