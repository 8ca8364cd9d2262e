/-!
Binary fractions of double precision, in exact arithmetic.
-/

namespace Flavoring.Number

/-- The quotient rounded to the nearest number, a half to the even one. -/
def roundDiv (num den : Nat) : Nat :=
  let q := num / den
  let r := num % den
  if den < 2 * r ∨ (2 * r = den ∧ q % 2 = 1) then q + 1 else q

/-- The number `mantissa * 2 ^ exponent`. -/
structure Binary where
  mantissa : Nat := 0
  exponent : Int := -1074
deriving DecidableEq, Repr

namespace Binary

/-- The numerator and the denominator of `num / den * 2 ^ e`. -/
def scale (num den : Nat) (e : Int) : Nat × Nat :=
  if 0 ≤ e then (num * Nat.pow 2 e.toNat, den) else (num, den * Nat.pow 2 (-e).toNat)

/-- The exponent that leaves 53 bits of `num / den`, or fewer where no smaller exponent exists. -/
def exponentOf (num den : Nat) : Int :=
  let e : Int := num.log2 - den.log2 - 52
  let (n, d) := scale num den (-e)
  max (-1074) (if n < d * Nat.pow 2 52 then e - 1 else e)

/-- The double nearest to `num / den`, a half going to the even one; none if it is out of range. -/
def nearest? (num den : Nat) : Option Binary :=
  if num = 0 then some {}
  else
    let e := exponentOf num den
    let (n, d) := scale num den (-e)
    let m := roundDiv n d
    let b : Binary := if m = Nat.pow 2 53 then ⟨Nat.pow 2 52, e + 1⟩ else ⟨m, e⟩
    if 971 < b.exponent then none else some b

/-- The number as numerator and denominator. -/
def toRatio (b : Binary) : Nat × Nat := scale b.mantissa 1 b.exponent

def isZero (b : Binary) : Bool := b.mantissa == 0

def mul? (a b : Binary) : Option Binary :=
  nearest? (a.toRatio.1 * b.toRatio.1) (a.toRatio.2 * b.toRatio.2)

def div? (a b : Binary) : Option Binary :=
  nearest? (a.toRatio.1 * b.toRatio.2) (a.toRatio.2 * b.toRatio.1)

end Binary

end Flavoring.Number
