import Rebind.Pattern.Search

/-!
# Kinds of source files

A source file is an activity, a fragment, an adapter or a view by what it declares, in this order of
preference, and something else otherwise.
-/

namespace Rebind

open Pattern

inductive FileKind where
  | activity
  | fragment
  | adapter
  | view
  | other
  deriving DecidableEq, Repr

namespace FileKind

def label : FileKind → Text
  | .activity => "activities"
  | .fragment => "fragments"
  | .adapter => "adapters"
  | .view => "views"
  | .other => "others"

def all : List FileKind := [.activity, .fragment, .adapter, .view, .other]

end FileKind

def extending (base : String) : Pattern :=
  seq [keyword "class", word, blanks1, keyword "extends", .run isWord, lit base]

def overriding (parts : List String) (name : String) : Pattern :=
  seq (keyword "@Override" :: parts.map keyword ++ [lit name, blanks, lit "("])

def calling (name : String) : Pattern := seq [lit name, blanks, lit "("]

def activityMarks : List Pattern :=
  [extending "Activity",
   seq [keyword "class", word, blanks1, keyword "implements", restOfLine, lit "Activity"],
   overriding ["protected", "void"] "onCreate",
   seq [keyword "extends", lit "AppCompatActivity"],
   seq [keyword "extends", lit "FragmentActivity"]]

def fragmentMarks : List Pattern :=
  [extending "Fragment", overriding ["public", "View"] "onCreateView",
   overriding ["public", "void"] "onViewCreated"]

def adapterMarks : List Pattern :=
  [extending "Adapter", seq [keyword "implements", restOfLine, lit "Adapter"], calling "getView",
   calling "onBindViewHolder"]

def viewMarks : List Pattern :=
  [extending "View", extending "ViewGroup", calling "onDraw", calling "onMeasure"]

def isActivity (content : Text) : Bool := activityMarks.any (·.found content)

def isFragment (content : Text) : Bool := fragmentMarks.any (·.found content)

def isAdapter (content : Text) : Bool := adapterMarks.any (·.found content)

def isView (content : Text) : Bool := viewMarks.any (·.found content)

def FileKind.ofContent (content : Text) : FileKind :=
  if isActivity content then .activity
  else if isFragment content then .fragment
  else if isAdapter content then .adapter
  else if isView content then .view
  else .other

end Rebind
