import Rebind.Text.Blank
import Rebind.Text.Word

/-!
# Text

Source text is a list of characters: every index, length and cut of this library counts code points.
This file holds the operations the rest is written in:

* `lines`, `unlines`: cutting at newlines and joining again (`unlines_lines`);
* `trim` and its two sides;
* `occursIn`, `cut`, `replaceAll`: occurrences of a fixed text;
* `splitAll`: cutting at every occurrence of one character;
* `slice`: the part between two signed indices, counted from the end when negative.

Text can be long, so what walks over all of it is either a fold or carries its result along.
-/

namespace Rebind

abbrev Text := List Char

instance : Coe String Text := ⟨String.toList⟩

def natText (n : Nat) : Text := Nat.toDigits 10 n

def intText : Int → Text
  | .ofNat n => natText n
  | .negSucc n => '-' :: natText (n + 1)

/-! ## lines -/

def consLine (c : Char) : List Text → List Text
  | [] => if c = '\n' then [[], []] else [[c]]
  | l :: ls => if c = '\n' then [] :: l :: ls else (c :: l) :: ls

def lines (t : Text) : List Text := t.foldr consLine [[]]

def unlines (ls : List Text) : Text := List.intercalate ['\n'] ls

theorem lines_nil : lines [] = [[]] := rfl

theorem lines_cons (c : Char) (t : Text) : lines (c :: t) = consLine c (lines t) := rfl

theorem lines_ne_nil (t : Text) : lines t ≠ [] := by
  cases t with
  | nil => simp [lines_nil]
  | cons c t =>
    rw [lines_cons]
    cases lines t with
    | nil => by_cases h : c = '\n' <;> simp [consLine, h]
    | cons l ls => by_cases h : c = '\n' <;> simp [consLine, h]

/-- nothing is lost by cutting a text into lines -/
theorem unlines_lines (t : Text) : unlines (lines t) = t := by
  induction t with
  | nil => rfl
  | cons c t ih =>
    rw [lines_cons]
    cases e : lines t with
    | nil => exact absurd e (lines_ne_nil t)
    | cons l ls =>
      rw [e] at ih
      by_cases h : c = '\n'
      · subst h
        simp only [consLine, if_true]
        rw [← ih]
        simp [unlines, List.intercalate]
      · simp only [consLine, h, if_false]
        cases ls with
        | nil => simpa [unlines, List.intercalate] using ih
        | cons l' ls' => simpa [unlines, List.intercalate] using ih

/-! ## trimming -/

def trimLeft (t : Text) : Text := t.dropWhile isBlank

def trimRight (t : Text) : Text := (t.reverse.dropWhile isBlank).reverse

def trim (t : Text) : Text := trimRight (trimLeft t)

def isBlankText (t : Text) : Bool := t.all isBlank

/-! ## occurrences of a fixed text -/

def occursIn (needle : Text) : Text → Bool
  | [] => needle.isEmpty
  | c :: t => needle.isPrefixOf (c :: t) || occursIn needle t

def anyOccursIn (needles : List Text) (t : Text) : Bool := needles.any (occursIn · t)

/-- the search of `cut`, with what was passed over in reverse -/
def cutFrom (needle : Text) : Text → Text → Option (Text × Text)
  | seen, [] => if needle.isEmpty then some (seen.reverse, []) else none
  | seen, c :: t =>
    if needle.isPrefixOf (c :: t) then some (seen.reverse, (c :: t).drop needle.length)
    else cutFrom needle (c :: seen) t

def cut (needle t : Text) : Option (Text × Text) := cutFrom needle [] t

def upTo (needle t : Text) : Text :=
  match cut needle t with
  | some (before, _) => before
  | none => t

/-- the work of `replaceAll`: the result so far in reverse, and how much of an occurrence is left to
skip -/
def replaceFrom (old new : Text) : Text → Nat → Text → Text
  | done, _, [] => done.reverse
  | done, n + 1, _ :: t => replaceFrom old new done n t
  | done, 0, c :: t =>
    if old.isPrefixOf (c :: t) then replaceFrom old new (new.reverse ++ done) (old.length - 1) t
    else replaceFrom old new (c :: done) 0 t

/-- every occurrence of `old`, from the left and without overlap, becomes `new`; an empty `old`
stands nowhere -/
def replaceAll (old new t : Text) : Text :=
  if old.isEmpty then t else replaceFrom old new [] 0 t

def splitAll (sep : Char) (t : Text) : List Text :=
  t.foldr (fun c ps =>
    match ps with
    | [] => if c = sep then [[], []] else [[c]]
    | p :: ps => if c = sep then [] :: p :: ps else (c :: p) :: ps) [[]]

def afterLast (sep : Char) (t : Text) : Text := (t.reverse.takeWhile (· != sep)).reverse

def countOf (c : Char) (t : Text) : Int := (t.count c : Nat)

def lastIndexOf (c : Char) (t : Text) : Option Nat :=
  (t.reverse.idxOf? c).map (t.length - 1 - ·)

/-! ## slices -/

/-- a signed index as an offset into a text of length `n`: a negative one counts from the end, and
what lies outside stops at the ends -/
def clampIndex (n : Nat) (i : Int) : Nat :=
  if i < 0 then (i + n).toNat else min i.toNat n

/-- the part from `start` up to `stop`, both signed; empty when they cross -/
def slice (t : Text) (start stop : Int) : Text :=
  let a := clampIndex t.length start
  let b := clampIndex t.length stop
  (t.drop a).take (b - a)

def sliceFrom (t : Text) (start : Int) : Text := t.drop (clampIndex t.length start)

def insertAt (k : Nat) (block t : Text) : Text := t.take k ++ block ++ t.drop k

def lowerAscii (c : Char) : Char := if c.toNat = 0x212A then 'k' else c.toLower

end Rebind
