import Rebind.Number.Binary

/-!
# Decimal text of binary fractions

Two ways to write a `Binary`:

* `shortestDigits`: the fewest digits that round back to the number, and of those the nearest;
* `fixedText`: a given number of places, a tie of the exact value going to the even digit.

`Floating.text` writes the shortest digits positionally when the leading digit has a place from
`10 ^ -4` to `10 ^ 15`, with a point and at least one digit after it, and with an exponent of at
least two digits otherwise.
-/

namespace Rebind

namespace Binary

/-- the number of places before the point: `10 ^ (k - 1) ≤ x < 10 ^ k` -/
def places (x : Binary) : Int :=
  let (num, den) := x.quotient
  let k : Int := ((natText num).length : Int) - (natText den).length
  let reached := if 0 ≤ k then den * Nat.pow 10 k.toNat ≤ num else den ≤ num * Nat.pow 10 (-k).toNat
  if reached then k + 1 else k

def readsBack (x : Binary) (d : Nat) (s : Int) : Bool :=
  let y := if 0 ≤ s then ofQuotient (d * Nat.pow 10 s.toNat) 1 else ofQuotient d
    (Nat.pow 10 (-s).toNat)
  y.quotient.1 * x.quotient.2 == x.quotient.1 * y.quotient.2

/-- of the two neighbours of `x` with steps of `10 ^ s`, the one that reads back as `x`, the nearer
if both do -/
def neighbour? (x : Binary) (s : Int) : Option Nat :=
  let (num, den) := x.quotient
  let (a, b) := if 0 ≤ s then (num, den * Nat.pow 10 s.toNat)
    else (num * Nat.pow 10 (-s).toNat, den)
  let low := a / b
  let near := roundQuotient a b
  let far := if near = low then low + 1 else low
  if x.readsBack near s then some near
  else if x.readsBack far s then some far
  else none

/-- the search of `shortestDigits` from `n` digits on, with `fuel` more tries -/
def shortestFrom (x : Binary) (k : Int) (n : Nat) : Nat → Nat × Int
  | 0 => (roundQuotient x.quotient.1 x.quotient.2, 0)
  | fuel + 1 =>
    match x.neighbour? (k - n) with
    | some d => (d, k - n)
    | none => shortestFrom x k (n + 1) fuel

def shortestDigits (x : Binary) : Nat × Int :=
  if x.mantissa = 0 then (0, 0) else shortestFrom x x.places 1 17

def fixedText (x : Binary) (p : Nat) : Text :=
  let (num, den) := x.quotient
  let n := roundQuotient (num * Nat.pow 10 p) den
  let digits := natText n
  let padded := List.replicate (p + 1 - digits.length) '0' ++ digits
  if p = 0 then padded
  else padded.take (padded.length - p) ++ '.' :: padded.drop (padded.length - p)

/-- the digits of the shortest decimal without zeros behind, and the place of the first one as a
power of ten -/
def leading (x : Binary) : Text × Int :=
  let (d, s) := x.shortestDigits
  let digits := natText d
  let kept := (digits.reverse.dropWhile (· == '0')).reverse
  (if kept.isEmpty then ['0'] else kept, s + digits.length - 1)

def text (x : Binary) : Text :=
  let (digits, e) := x.leading
  let n := digits.length
  if -4 ≤ e ∧ e < 16 then
    if e < 0 then "0." ++ List.replicate (-e - 1).toNat '0' ++ digits
    else
      let whole := e.toNat + 1
      if n ≤ whole then digits ++ List.replicate (whole - n) '0' ++ ".0".toList
      else digits.take whole ++ '.' :: digits.drop whole
  else
    let mantissa := if n = 1 then digits else digits.take 1 ++ '.' :: digits.drop 1
    let size := natText e.natAbs
    let sign := if e < 0 then '-' else '+'
    mantissa ++ 'e' :: sign :: (List.replicate (2 - size.length) '0' ++ size)

end Binary

/-- the shortest decimal text, `inf` and `nan` for what has none -/
def Floating.text : Floating → Text
  | .finite neg x => (if neg then ['-'] else []) ++ x.text
  | .infinite neg => (if neg then ['-'] else []) ++ "inf".toList
  | .undefined => "nan"

def Floating.fixedText (x : Floating) (p : Nat) : Text :=
  match x with
  | .finite neg x => (if neg then ['-'] else []) ++ x.fixedText p
  | _ => x.text

end Rebind
