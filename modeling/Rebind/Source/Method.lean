import Rebind.Pattern.Search
import Rebind.Source.Braces

/-!
# Method headers and extents

The patterns of method headers, and where a method with a given name starts and ends.
-/

namespace Rebind

open Pattern

def accessModifier : Pattern := oneOf [keyword "public", keyword "private", keyword "protected"]

/-- a method with a body, anywhere: group 1 is its name -/
def methodHeader : Pattern :=
  seq [.maybe (oneOf [lit "public", lit "private", lit "protected"]), blanks,
    .maybe (keyword "static"), .maybe (keyword "final"), word, blanks1, .group 1 word, blanks,
    parameters, blanks, lit "\x7b"]

/-- the names of the methods with a body, each once, in order of first appearance -/
def methodNames (code : Text) : List Text :=
  ((methodHeader.findAll code).foldl (fun names m =>
    let name := trim (m.group 1)
    if name.isEmpty || names.contains name then names else name :: names) []).reverse

/-- a line that starts the method `name`, up to the brace that opens its body -/
def methodLine (name : Text) : Pattern :=
  seq [blanks, .maybe accessModifier, .maybe (keyword "static"),
    .maybe (oneOf [keyword "void", keyword "boolean"]), .text name, blanks, parameters, blanks,
    lit "\x7b"]

/-- the offset of the first line that `p` matches at its start -/
def firstLineOffset (p : Pattern) : Nat → List Text → Option Nat
  | _, [] => none
  | offset, l :: ls =>
    if (p.matchStart l).isSome then some offset else firstLineOffset p (offset + l.length + 1) ls

def methodExtent (code name : Text) : Option (Nat × Option Nat) :=
  (firstLineOffset (methodLine name) 0 (lines code)).map (fun start =>
    (start, (closingBrace 0 (code.drop start)).map (start + · + 1)))

def parameterList : Pattern := seq [lit "(", .group 1 (butNot ')'), lit ")"]

/-- the view classes a handler's parameter may have, in order of preference -/
def viewClasses : List Text :=
  ["TextView".toList, "Button".toList, "ImageView".toList, "EditText".toList, "CheckBox".toList,
   "RadioButton".toList, "Switch".toList, "SeekBar".toList, "ProgressBar".toList,
   "Spinner".toList, "ListView".toList, "RecyclerView".toList, "LinearLayout".toList,
   "RelativeLayout".toList, "FrameLayout".toList, "ConstraintLayout".toList, "CardView".toList,
   "ScrollView".toList, "NestedScrollView".toList, "ViewPager".toList, "TabLayout".toList,
   "Toolbar".toList, "AppBarLayout".toList, "CoordinatorLayout".toList, "DrawerLayout".toList,
   "NavigationView".toList, "BottomNavigationView".toList, "FloatingActionButton".toList]

def viewClassOf (params : Text) : Text :=
  (viewClasses.find? (occursIn · params)).getD "View"

/-- the class of the view that the method `name` takes, nothing if it takes none -/
def viewParameter (code name : Text) : Option Text :=
  match methodExtent code name with
  | some (start, some stop) =>
    let signature := ((code.drop start).take (stop - start)).takeWhile (· != '\x7b')
    match parameterList.search signature with
    | some m =>
      let params := trim (m.group 1)
      if params.isEmpty then none
      else
        let cls := viewClassOf params
        if cls != "View".toList || occursIn "View" params then some cls else none
    | none => none
  | _ => none

end Rebind
