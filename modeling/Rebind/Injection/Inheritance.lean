import Rebind.Fault
import Rebind.Pattern.Search

/-!
# What kind of class a source file declares

Three questions decide how code is injected: is the class a view holder (`isHolder`), does it set
its content view (`setsContentView`), and does it descend from one of the bases that call the
initialisers themselves (`isNewBase`).  The last one follows the parents declared in the same file;
a class that is its own ancestor makes the search endless.
-/

namespace Rebind

open Pattern

/-! ## holders and content views -/

def publicClass : Pattern :=
  seq [keyword "public", keyword "class", .group 1 word,
    .maybe (seq [blanks1, keyword "extends", .group 2 (butNot1 '\x7b')])]

/-- the first public class holds the views of a list item -/
def isHolder (code : Text) : Bool :=
  match publicClass.search code with
  | none => false
  | some m =>
    let name := m.group 1
    let parent := m.group 2
    occursIn "BaseHolder" parent || occursIn "RecyclerView.ViewHolder" parent
      || (occursIn "Holder" name && !occursIn "Activity" name && !occursIn "Fragment" name)

def layoutMethod : Pattern :=
  seq [keyword "public", keyword "int", lit "getLayoutId", blanks, lit "(", blanks, lit ")"]

def publicSubclass : Pattern :=
  seq [keyword "public", keyword "class", word, blanks1, keyword "extends", .group 1 word]

def contentViewBases : List Text :=
  ["BaseActivity".toList, "AppCompatActivity".toList, "Activity".toList, "FragmentActivity".toList,
   "BaseFragment".toList, "Fragment".toList, "DialogFragment".toList]

/-- the class sets its content view, or descends from a base that does -/
def setsContentView (code : Text) : Bool :=
  (seq [lit "setContentView", blanks, lit "("]).found code || layoutMethod.found code
    || match publicSubclass.search code with
      | some m => contentViewBases.contains (m.group 1)
      | none => false

/-! ## descent -/

def isNewBaseName (name : Text) : Bool :=
  occursIn "NewBaseActivity" name || occursIn "NewBaseFragment" name

/-- the bases that are taken to descend from such a base -/
def commonBases : List Text :=
  ["BaseActivity".toList, "BaseFragment".toList, "TabBaseFragment".toList, "TabBaseActivity".toList,
   "AppBaseActivity".toList, "AppBaseFragment".toList, "CommonBaseActivity".toList,
   "CommonBaseFragment".toList, "HomeBaseFragment".toList]

def parentOf (code name : Text) : Option Text :=
  ((seq [keyword "class", .text name, blanks1, keyword "extends", .group 1 word]).search code).map
    (·.group 1)

/-- the search from the class `name` upwards; `seen` are the classes passed, and `fuel` bounds their
number -/
def descendsFrom (code : Text) (seen : List Text) (name : Text) : Nat → Except Fault Bool
  | 0 => .error .endlessInheritance
  | fuel + 1 =>
    match parentOf code name with
    | none => .ok false
    | some parent =>
      if isNewBaseName parent then .ok true
      else if seen.contains parent then .error .endlessInheritance
      else descendsFrom code (parent :: seen) parent fuel

/-- an ancestor of `name` is a base that calls the initialisers: every class passed has a
declaration of its own, so the text is at least as long as the chain -/
def ancestorIsNewBase (code name : Text) : Except Fault Bool :=
  descendsFrom code [name] name (code.length + 1)

/-- the first class with a parent descends from a base that calls the initialisers -/
def inheritsNewBase (code : Text) : Except Fault Bool :=
  match (seq [keyword "class", word, blanks1, keyword "extends", .group 1 word]).search code with
  | none => .ok false
  | some m =>
    let parent := m.group 1
    if isNewBaseName parent then .ok true
    else
      match parentOf code parent with
      | some grandparent =>
        if isNewBaseName grandparent then .ok true else ancestorIsNewBase code grandparent
      | none => .ok (commonBases.contains parent)

def newBaseHeaders : List Pattern :=
  [seq [keyword "extends", lit "NewBaseActivity"],
   seq [keyword "extends", .run isWord, lit "NewBaseActivity"],
   seq [keyword "extends", lit "NewBaseFragment"],
   seq [keyword "extends", .run isWord, lit "NewBaseFragment"],
   seq [keyword "implements", restOfLine, lit "NewBaseActivity"],
   seq [keyword "implements", restOfLine, lit "NewBaseFragment"]]

def isNewBase (code : Text) : Except Fault Bool :=
  if newBaseHeaders.any (·.found code) || layoutMethod.found code then .ok true
  else inheritsNewBase code

end Rebind
