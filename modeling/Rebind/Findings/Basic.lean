import Rebind.Fault
import Rebind.Value.Basic

/-!
# Findings

What is known about the view bindings of one source file:

* `BindView`: a field bound to a view by `@BindView`;
* `Handler`: a method bound to clicks or long clicks on some views;
* `ClassInfo`: the name and the parents of the first class;
* `Findings`: all of these, with the imports, the bind call and the method names.

Findings are read off the source (`Findings.detect`), or handed in, and then a field may be left out
or empty: a `Slot` is `absent`, `null` or `given`.  An operation that needs an absent field stops
with `Fault.missing`, in the order in which it asks.
-/

namespace Rebind

/-- a field of an entry: left out, empty, or given -/
inductive Slot (α : Type) where
  | absent
  | null
  | given (a : α)
  deriving DecidableEq

namespace Slot

variable {α : Type}

def isPresent : Slot α → Bool
  | .absent => false
  | _ => true

/-- the content of a field that has to be there, nothing if it is empty -/
def require (key : String) : Slot α → Except Fault (Option α)
  | .absent => .error (.missing key)
  | .null => .ok none
  | .given a => .ok (some a)

/-- the content of a field that has to be there and not empty; an empty one is `fault` -/
def demand (key : String) (fault : Fault) (s : Slot α) : Except Fault α := do
  match ← s.require key with
  | some a => pure a
  | none => throw fault

/-- the content of a field, `default` if it is left out; an empty one is `fault` -/
def orElse (default : α) (fault : Fault) : Slot α → Except Fault α
  | .absent => .ok default
  | .null => .error fault
  | .given a => .ok a

def written (key : String) (s : Slot Text) : Except Fault Text := do
  return (← s.require key).getD "None"

def entry (key : String) (value : α → Value) : Slot α → List (Text × Value)
  | .absent => []
  | .null => [(key, .null)]
  | .given a => [(key, value a)]

def items (s : Slot (List α)) : List α :=
  match s with
  | .given l => l
  | _ => []

def walked (s : Slot (List α)) : Except Fault (List α) := s.orElse [] .wrongKind

end Slot

structure BindView where
  /-- the resource of the view, such as `R.id.title` -/
  id : Slot Text := .absent
  type : Slot Text := .absent
  name : Slot Text := .absent
  /-- the trimmed source line the annotation was found on -/
  line : Slot Text := .absent
  /-- further entries, of no meaning here -/
  others : List (Text × Value) := []

structure Handler where
  ids : Slot (List Text) := .absent
  method : Slot Text := .absent
  takesView : Slot Bool := .absent
  /-- the type of the parameter that takes it -/
  viewType : Slot Text := .absent
  line : Slot Text := .absent
  others : List (Text × Value) := []

structure ClassInfo where
  name : Slot Text := .absent
  parent : Slot Text := .absent
  interfaces : Slot Text := .absent
  others : List (Text × Value) := []

def ClassInfo.isEmpty (c : ClassInfo) : Bool :=
  !c.name.isPresent && !c.parent.isPresent && !c.interfaces.isPresent && c.others.isEmpty

structure Findings where
  hasButterKnife : Slot Value := .absent
  bindViews : Slot (List BindView) := .absent
  clicks : Slot (List Handler) := .absent
  longClicks : Slot (List Handler) := .absent
  bindCall : Slot Value := .absent
  imports : Slot (List (Text × Value)) := .absent
  classInfo : Slot ClassInfo := .absent
  methods : Slot (List Text) := .absent

/-- a flag as it was handed in, false if it is left out -/
def Slot.flag : Slot Value → Value
  | .absent => .bool false
  | .null => .null
  | .given v => v

def Findings.applies (f : Findings) : Bool := f.hasButterKnife.flag.truthy

end Rebind
