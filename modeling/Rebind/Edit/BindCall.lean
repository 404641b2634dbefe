import Rebind.Findings.Summary
import Rebind.Pattern.Search

/-!
# Bind calls dropped

The lines that bind or unbind the views of a class go, and with them blank lines, empty statements
and the imports of the library; runs of blank lines shrink to one.
-/

namespace Rebind.BindCall

open Pattern

def isEmptyLine (line : Text) : Bool :=
  let t := trim line
  t.isEmpty || t == [';']

def dropLines (call code : Text) : Text :=
  unlines ((lines code).filter (fun l => !occursIn call l && !isEmptyLine l))

def dropBind (code : Text) : Text := dropLines "ButterKnife.bind" code

def dropUnbind (code : Text) : Text := dropLines "ButterKnife.unbind" code

def importLine (cls : String) : Pattern :=
  seq [keyword "import", lit "butterknife.", lit cls, blanks, lit ";", blanks, .maybe (lit "\n")]

def dropImports (code : Text) : Text :=
  (importLine "OnClick").erase
    ((importLine "BindView").erase ((importLine "ButterKnife").erase code))

/-- of each run of blank lines the first; `blank` says whether the line before was blank -/
def squeezeFrom (kept : List Text) (blank : Bool) : List Text → List Text
  | [] => kept.reverse
  | l :: ls =>
    if isBlankText l && blank then squeezeFrom kept true ls
    else squeezeFrom (l :: kept) (isBlankText l) ls

def squeezeLines (ls : List Text) : List Text :=
  (((squeezeFrom [] false ls).dropWhile isBlankText).reverse.dropWhile isBlankText).reverse

def squeezeBlankLines (code : Text) : Text := unlines (squeezeLines (lines code))

/-- whether there is anything to drop: the bind call as it was handed in, or else some import -/
def applies (f : Findings) : Except Fault Value := do
  let call := f.bindCall.flag
  if call.truthy then return call
  let imports ← f.imports.orElse [] .noOperation
  return .bool (imports.any (·.2.truthy))

def edit (f : Findings) (code : Text) : Except Fault Text := do
  if !(← applies f).truthy then return code
  return squeezeBlankLines (dropImports (dropUnbind (dropBind code)))

def dropped (f : Findings) : Except Fault (List Text × List Text) := do
  let calls := if f.bindCall.flag.truthy then ["ButterKnife.bind(this);".toList] else []
  let imports ← f.imports.orElse [] .noOperation
  let imported (key : String) (line : String) : List Text :=
    if ((Value.lookup key imports).getD (.bool false)).truthy then [line.toList] else []
  return (calls, imported "butterknife" "import butterknife.ButterKnife;"
    ++ imported "bindview" "import butterknife.BindView;"
    ++ imported "onclick" "import butterknife.OnClick;")

end Rebind.BindCall
