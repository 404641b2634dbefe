import Rebind.Note

/-!
# Imports of the library

Before anything is injected, the imports of the library and of its annotations are dropped.
-/

namespace Rebind

def annotationNames : List Text :=
  ["BindView".toList, "OnClick".toList, "BindString".toList, "BindColor".toList,
   "BindDimen".toList, "BindDrawable".toList, "BindBitmap".toList, "BindInt".toList,
   "BindFloat".toList, "BindBoolean".toList, "BindArray".toList, "BindFont".toList,
   "BindAnim".toList, "BindAnimator".toList, "BindBool".toList]

def droppedImport? (line : Text) : Option Note :=
  let t := trim line
  if "import".toList.isPrefixOf t then
    if "import butterknife".toList.isPrefixOf t then some (.droppedImport t)
    else if occursIn "butterknife" (t.map lowerAscii) || anyOccursIn annotationNames t then
      some (.droppedRelatedImport t)
    else none
  else none

def dropLibraryImports (code : Text) : Traced Text :=
  let ls := lines code
  ⟨unlines (ls.filter (fun l => (droppedImport? l).isNone)), ls.filterMap droppedImport?⟩

end Rebind
