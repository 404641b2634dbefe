import Rebind.Fault
import Rebind.Value.Basic

/-!
# Arithmetic on values

The share of one number in another, as a percentage: the quotient is rounded to a binary fraction,
and so is its product with a hundred.  Truth values count as one and zero.
-/

namespace Rebind

namespace Value

/-- a number as a sign and a quotient, and whether it is whole -/
structure Ratio where
  negative : Bool
  num : Nat
  den : Nat
  whole : Bool

def ratio? : Value → Except Fault Ratio
  | .int i => .ok ⟨i < 0, i.natAbs, 1, true⟩
  | .bool b => .ok ⟨false, if b then 1 else 0, 1, true⟩
  | .real (.finite neg x) => .ok ⟨neg, x.quotient.1, x.quotient.2, false⟩
  | _ => .error .wrongKind

def Ratio.rounded (r : Ratio) : Ratio :=
  let x := Binary.ofQuotient r.num r.den
  { r with num := x.quotient.1, den := x.quotient.2 }

def isPositive (v : Value) : Except Fault Bool := do
  let r ← v.ratio?
  return !r.negative && r.num != 0

/-- `part` as a percentage of `total`, which is above zero; what is too large is infinite -/
def percentOf (part total : Value) : Except Fault Floating := do
  let a ← part.ratio?
  let b ← total.ratio?
  let (a, b) := if a.whole && b.whole then (a, b) else (a.rounded, b.rounded)
  let x := (Binary.ofQuotient (a.num * b.den) (a.den * b.num)).times 100
  return if x.overflows then .infinite a.negative else .finite a.negative x

end Value

end Rebind
