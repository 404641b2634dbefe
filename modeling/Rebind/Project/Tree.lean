import Rebind.Text.Order

/-!
# Directory trees

A `Tree` is what stands under a name on disk: a file with its bytes, a device that keeps nothing, or
a directory whose entries are in the order of their names.  A place in a tree is the list of names
that leads to it.

* `Tree.find?`: what stands at a place;
* `Tree.put`: puts something at a place, with the directories above it (`find?_put`);
* `Tree.erase`: takes it away;
* `Tree.files`: all files below, with their places;
* `Tree.leaves`: all files and the empty directories;
* `Tree.added`, `Tree.removed`: how two trees differ.
-/

namespace Rebind

inductive Tree where
  | file (content : ByteArray)
  /-- a device: it takes every byte and keeps none, or takes none -/
  | device (takes : Bool)
  | dir (entries : List (Text × Tree))

abbrev Place := List Text

namespace Tree

def isDir : Tree → Bool
  | .dir _ => true
  | _ => false

def isFile : Tree → Bool
  | .file _ => true
  | _ => false

def entries : Tree → List (Text × Tree)
  | .dir es => es
  | _ => []

def child? (name : Text) : List (Text × Tree) → Option Tree
  | [] => none
  | (n, t) :: es => if n = name then some t else child? name es

/-- the entries with `t` under `name`, in the order of names -/
def putEntry (name : Text) (t : Tree) : List (Text × Tree) → List (Text × Tree)
  | [] => [(name, t)]
  | (n, u) :: es =>
    if n = name then (n, t) :: es
    else if textLe name n then (name, t) :: (n, u) :: es
    else (n, u) :: putEntry name t es

def dropEntry (name : Text) (es : List (Text × Tree)) : List (Text × Tree) :=
  es.filter (fun e => e.1 != name)

theorem child?_putEntry_self (name : Text) (t : Tree) (es : List (Text × Tree)) :
    child? name (putEntry name t es) = some t := by
  induction es with
  | nil => simp [putEntry, child?]
  | cons e es ih =>
    obtain ⟨n, u⟩ := e
    by_cases h : n = name
    · simp [putEntry, child?, h]
    · by_cases hle : textLe name n <;> simp [putEntry, child?, h, hle, ih]

theorem child?_putEntry_ne {name other : Text} (h : other ≠ name) (t : Tree)
    (es : List (Text × Tree)) : child? other (putEntry name t es) = child? other es := by
  induction es with
  | nil => simp [putEntry, child?, Ne.symm h]
  | cons e es ih =>
    obtain ⟨n, u⟩ := e
    by_cases hn : n = name
    · subst hn
      simp [putEntry, child?, Ne.symm h]
    · by_cases hle : textLe name n
      · simp [putEntry, child?, hn, hle, Ne.symm h]
      · have hp : putEntry name t ((n, u) :: es) = (n, u) :: putEntry name t es := by
          simp [putEntry, hn, hle]
        rw [hp, child?, child?, ih]

def find? : Place → Tree → Option Tree
  | [], t => some t
  | n :: ns, t =>
    match child? n t.entries with
    | some u => find? ns u
    | none => none

def put (u : Tree) : Place → Tree → Tree
  | [], t => t
  | n :: ns, t => .dir (putEntry n (put ((child? n u.entries).getD (.dir [])) ns t) u.entries)

def erase : Place → Tree → Tree
  | [], t => t
  | [n], .dir es => .dir (dropEntry n es)
  | n :: m :: ns, .dir es =>
    match child? n es with
    | some u => .dir (putEntry n (erase (m :: ns) u) es)
    | none => .dir es
  | _ :: _, t => t

theorem find?_put (u : Tree) (p : Place) (t : Tree) : find? p (put u p t) = some t := by
  induction p generalizing u with
  | nil => rfl
  | cons n ns ih => simp [put, find?, entries, child?_putEntry_self, ih]

mutual

/-- all files below, with their places in the order of a walk through the entries -/
def files : Tree → List (Place × ByteArray)
  | .file content => [([], content)]
  | .device _ => []
  | .dir es => filesOf es

def filesOf : List (Text × Tree) → List (Place × ByteArray)
  | [] => []
  | (n, t) :: es => (files t).map (fun f => (n :: f.1, f.2)) ++ filesOf es

end

mutual

/-- all files below, and the directories that are empty -/
def leaves : Tree → List (Place × Option ByteArray)
  | .file content => [([], some content)]
  | .device _ => []
  | .dir [] => [([], none)]
  | .dir (e :: es) => leavesOf (e :: es)

def leavesOf : List (Text × Tree) → List (Place × Option ByteArray)
  | [] => []
  | (n, t) :: es => (leaves t).map (fun f => (n :: f.1, f.2)) ++ leavesOf es

end

def added (old new : Tree) : List (Place × Option ByteArray) :=
  new.leaves.filter (fun leaf =>
    match old.find? leaf.1, leaf.2 with
    | some (.file content), some bytes => content.toList != bytes.toList
    | some (.dir _), none => false
    | _, _ => true)

def removed (old new : Tree) : List Place :=
  (old.leaves.filter (fun leaf => (new.find? leaf.1).isNone)).map (·.1)

end Tree

end Rebind
