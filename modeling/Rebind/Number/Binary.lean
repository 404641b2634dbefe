import Rebind.Text.Basic

/-!
# Binary fractions of 53 bits

Rates and sizes are computed in the binary format of 53 significant bits and exponents from -1074:
every operation gives the representable number nearest to the exact result, a tie going to the even
one.  A number is kept as `mantissa · 2 ^ exponent`, and `Binary.ofQuotient` is the one place that
rounds.
-/

namespace Rebind

/-- the whole number nearest to `num / den`, a tie going to the even one -/
def roundQuotient (num den : Nat) : Nat :=
  let q := num / den
  let r := num % den
  if 2 * r < den then q
  else if den < 2 * r then q + 1
  else if q % 2 = 0 then q else q + 1

/-- `mantissa · 2 ^ exponent` -/
structure Binary where
  mantissa : Nat
  exponent : Int
  deriving DecidableEq, Repr

namespace Binary

def shifted (num den : Nat) (e : Int) : Nat × Nat :=
  if 0 ≤ e then (num, den * Nat.pow 2 e.toNat) else (num * Nat.pow 2 (-e).toNat, den)

/-- the exponent at which `num / den` has 53 bits before the point, no less than the least one -/
def exponentFor (num den : Nat) : Int :=
  let e : Int := (num.log2 : Int) - den.log2 - 53
  let (a, b) := shifted num den e
  max (if Nat.pow 2 53 ≤ a / b then e + 1 else e) (-1074)

/-- the representable number nearest to `num / den`, a tie going to the even one -/
def ofQuotient (num den : Nat) : Binary :=
  if num = 0 then ⟨0, 0⟩
  else
    let e := exponentFor num den
    let (a, b) := shifted num den e
    let m := roundQuotient a b
    if m = Nat.pow 2 53 then ⟨Nat.pow 2 52, e + 1⟩ else ⟨m, e⟩

def quotient (x : Binary) : Nat × Nat :=
  if 0 ≤ x.exponent then (x.mantissa * Nat.pow 2 x.exponent.toNat, 1)
  else (x.mantissa, Nat.pow 2 (-x.exponent).toNat)

def times (x : Binary) (n : Nat) : Binary :=
  ofQuotient (x.quotient.1 * n) x.quotient.2

def overflows (x : Binary) : Bool := 1024 < (x.mantissa.log2 : Int) + 1 + x.exponent

end Binary

/-- a number of the format, its infinities and its undefined value included -/
inductive Floating where
  | finite (negative : Bool) (x : Binary)
  | infinite (negative : Bool)
  | undefined
  deriving DecidableEq, Repr

/-- the number nearest to `digits · 10 ^ exponent`; what is too large is infinite -/
def Floating.ofDecimal (negative : Bool) (digits : Nat) (exponent : Int) : Floating :=
  if 400 < exponent ∧ digits ≠ 0 then .infinite negative
  else if exponent < -20000 then .finite negative ⟨0, 0⟩
  else
    let x := if 0 ≤ exponent then Binary.ofQuotient (digits * Nat.pow 10 exponent.toNat) 1
      else Binary.ofQuotient digits (Nat.pow 10 (-exponent).toNat)
    if x.overflows then .infinite negative else .finite negative x

def Floating.isZero : Floating → Bool
  | .finite _ x => x.mantissa == 0
  | _ => false

end Rebind
