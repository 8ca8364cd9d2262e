import Flavoring.Number.Binary

/-!
Decimal text of binary fractions: the fewest digits that read back, and a fixed number of places.
-/

namespace Flavoring.Number

/-- The number `digits * 10 ^ exponent`. -/
structure Decimal where
  digits : Nat
  exponent : Int
deriving DecidableEq, Repr

namespace Decimal

/-- The largest `k` with `10 ^ k ≤ num / den`, for a number above `10 ^ (-400)`. -/
def magnitude (num den : Nat) : Int :=
  ((Nat.toDigits 10 (num * Nat.pow 10 400 / den)).length : Int) - 401

/-- Both sides of the numbers that `b` is nearest to, and whether they belong to them. The gap
below a power of two is half as wide. -/
def interval (b : Binary) : (Nat × Nat) × (Nat × Nat) × Bool :=
  let m := b.mantissa
  let low :=
    if m = Nat.pow 2 52 ∧ b.exponent ≠ -1074 then Binary.scale (4 * m - 1) 4 b.exponent
    else Binary.scale (2 * m - 1) 2 b.exponent
  (low, Binary.scale (2 * m + 1) 2 b.exponent, m % 2 = 0)

/-- The decimal as numerator and denominator. -/
def toRatio (d : Decimal) : Nat × Nat :=
  if 0 ≤ d.exponent then (d.digits * Nat.pow 10 d.exponent.toNat, 1)
  else (d.digits, Nat.pow 10 (-d.exponent).toNat)

/-- The decimal reads back as `b`. -/
def isWithin (b : Binary) (d : Decimal) : Bool :=
  let (n, m) := d.toRatio
  let ((lowNum, lowDen), (highNum, highDen), closed) := interval b
  let low := n * lowDen
  let high := n * highDen
  if closed then lowNum * m ≤ low && high ≤ highNum * m else lowNum * m < low && high < highNum * m

/-- A decimal with `count` digits, or the power of ten above those, in as few digits as it has. -/
def carried (count : Nat) (d : Decimal) : Decimal :=
  if d.digits = Nat.pow 10 count then ⟨1, d.exponent + count⟩ else d

/-- The decimal with `count` digits nearest to `b`, if one with so few reads back. -/
def withDigits? (b : Binary) (count : Nat) : Option Decimal :=
  let (num, den) := b.toRatio
  let e := magnitude num den - (count - 1 : Nat)
  let (n, d) :=
    if 0 ≤ e then (num, den * Nat.pow 10 e.toNat) else (num * Nat.pow 10 (-e).toNat, den)
  let low : Decimal := ⟨n / d, e⟩
  let high : Decimal := ⟨n / d + 1, e⟩
  match isWithin b low, isWithin b high with
  | true, true => some (carried count ⟨roundDiv n d, e⟩)
  | true, false => some low
  | false, true => some (carried count high)
  | false, false => none

/-- The decimal with the fewest digits that reads back as `b`, and the nearest of those. -/
def shortest (b : Binary) : Decimal :=
  ((List.range 17).findSome? fun count => withDigits? b (count + 1)).getD ⟨0, 0⟩

/-- How a decimal is laid out. -/
structure Style where
  /-- powers of ten that are written without an exponent -/
  least : Int
  most : Int

/-- Digits with a point, at least one on either side of it; beyond the style's range with a signed
exponent, and then with a point only if there are more digits. -/
def render (style : Style) (d : Decimal) : String :=
  if d.digits = 0 then "0.0"
  else
    let ds := Nat.toDigits 10 d.digits
    let power : Int := d.exponent + (ds.length - 1 : Nat)
    let chars :=
      if style.least ≤ power ∧ power ≤ style.most then
        if power < 0 then '0' :: '.' :: List.replicate (-power - 1).toNat '0' ++ ds
        else
          let whole := power.toNat + 1
          if ds.length ≤ whole then ds ++ List.replicate (whole - ds.length) '0' ++ ['.', '0']
          else ds.take whole ++ '.' :: ds.drop whole
      else
        let fraction := if ds.length = 1 then [] else '.' :: ds.drop 1
        ds.take 1 ++ fraction ++ 'e' :: (if power < 0 then '-' else '+')
          :: Nat.toDigits 10 power.natAbs
    String.ofList chars

/-- A number with exactly `places` digits behind the point, a half going to the even neighbour. -/
def renderFixed (places : Nat) (b : Binary) : String :=
  let (num, den) := b.toRatio
  let ds := Nat.toDigits 10 (roundDiv (num * Nat.pow 10 places) den)
  let ds := List.replicate (places + 1 - ds.length) '0' ++ ds
  String.ofList (ds.take (ds.length - places) ++ '.' :: ds.drop (ds.length - places))

end Decimal

end Flavoring.Number
