import Rebind.Number.Decimal
import Rebind.Text.Quoted

/-!
# Values

Settings, requests and reports hold values of the kinds that structured text files have.  `Value`
keeps the order of the entries of a dictionary; a key stands in it once.

* `Value.display`: how a value is shown inside another one;
* `Value.shown`: how it is shown by itself: a text without quotes;
* `Value.truthy`: whether it counts as true in a condition.

A file may spell half of a surrogate pair in a text, which is no character.  A value that was read
from one is a `Json`, with the texts as code points.
-/

namespace Rebind

inductive Value (χ : Type := Char) where
  | null
  | bool (b : Bool)
  | int (i : Int)
  | real (x : Floating)
  | text (t : List χ)
  | list (vs : List (Value χ))
  | dict (kvs : List (List χ × Value χ))

inductive CodePoint where
  | char (c : Char)
  /-- half of a surrogate pair without the other -/
  | half (n : Fin 2048)
  deriving DecidableEq

abbrev Json := Value CodePoint

def CodePoint.ofNat (n : Nat) : CodePoint :=
  if h : 0xD800 ≤ n ∧ n < 0xE000 then .half ⟨n - 0xD800, by omega⟩ else .char (Char.ofNat n)

def CodePoint.char? : CodePoint → Option Char
  | .char c => some c
  | .half _ => none

/-- the text that code points are, unless there is a half among them -/
def whole? (t : List CodePoint) : Option Text := t.mapM CodePoint.char?

theorem whole?_map (s : Text) : whole? (s.map .char) = some s := by
  induction s with
  | nil => rfl
  | cons c s ih =>
    rw [whole?] at ih
    rw [List.map_cons, whole?, List.mapM_cons, ih]
    rfl

namespace Value

variable {χ ψ κ α : Type}

instance : Inhabited (Value χ) := ⟨.null⟩

def str (s : String) : Value := .text s

def plain (t : Text) : Json := .text (t.map .char)

def object (kvs : List (Text × Json)) : Json := .dict (kvs.map (fun e => (e.1.map .char, e.2)))

/-- whether a value counts as true: zero and what is empty do not -/
def truthy : Value χ → Bool
  | .null => false
  | .bool b => b
  | .int i => i != 0
  | .real x => !x.isZero
  | .text t => !t.isEmpty
  | .list vs => !vs.isEmpty
  | .dict kvs => !kvs.isEmpty

mutual

/-- a value as it is shown inside a list or a dictionary -/
def display : Value → Text
  | .null => "None"
  | .bool true => "True"
  | .bool false => "False"
  | .int i => intText i
  | .real x => x.text
  | .text t => quoted t
  | .list vs => '[' :: displayItems vs ++ [']']
  | .dict kvs => '\x7b' :: displayEntries kvs ++ ['\x7d']

def displayItems : List Value → Text
  | [] => []
  | [v] => display v
  | v :: w :: vs => display v ++ ", ".toList ++ displayItems (w :: vs)

def displayEntries : List (Text × Value) → Text
  | [] => []
  | [(k, v)] => quoted k ++ ": ".toList ++ display v
  | (k, v) :: e :: kvs =>
    quoted k ++ ": ".toList ++ display v ++ ", ".toList ++ displayEntries (e :: kvs)

end

def shown : Value → Text
  | .text t => t
  | v => v.display

def kindName : Value χ → Text
  | .null => "NoneType"
  | .bool _ => "bool"
  | .int _ => "int"
  | .real _ => "float"
  | .text _ => "str"
  | .list _ => "list"
  | .dict _ => "dict"

def size? : Value χ → Option Nat
  | .text t => some t.length
  | .list vs => some vs.length
  | .dict kvs => some kvs.length
  | _ => none

mutual

/-- a value with every text in it changed, keys included -/
def mapTexts (f : List χ → List ψ) : Value χ → Value ψ
  | .null => .null
  | .bool b => .bool b
  | .int i => .int i
  | .real x => .real x
  | .text t => .text (f t)
  | .list vs => .list (mapItems f vs)
  | .dict kvs => .dict (mapEntries f kvs)

def mapItems (f : List χ → List ψ) : List (Value χ) → List (Value ψ)
  | [] => []
  | v :: vs => mapTexts f v :: mapItems f vs

def mapEntries (f : List χ → List ψ) : List (List χ × Value χ) → List (List ψ × Value ψ)
  | [] => []
  | (k, v) :: kvs => (f k, mapTexts f v) :: mapEntries f kvs

end

def json (v : Value) : Json := v.mapTexts (·.map .char)

/-- a value of a file as it is shown: a half of a pair has a sign in its place -/
def ofJson (v : Json) : Value := v.mapTexts (·.map (fun c => c.char?.getD '\ufffd'))

def lookup (key : Text) (kvs : List (Text × α)) : Option α := (kvs.find? (·.1 == key)).map (·.2)

def get? (key : Text) : Value → Option Value
  | .dict kvs => lookup key kvs
  | _ => none

def put [DecidableEq κ] (key : κ) (v : α) : List (κ × α) → List (κ × α)
  | [] => [(key, v)]
  | (k, w) :: kvs => if k = key then (k, v) :: kvs else (k, w) :: put key v kvs

end Value

end Rebind
