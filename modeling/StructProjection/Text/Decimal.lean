/-! # Decimal numbers as binary ones

A decimal number is shown as the shortest decimal that is nearest to the same binary number of double
precision.
-/

namespace StructProjection.Text

/-- The number `digits * 10 ^ exponent`. -/
structure Decimal where
  negative : Bool
  digits : Nat
  exponent : Int
  deriving DecidableEq, Repr

/-- A number that is not negative, as a fraction. -/
private structure Ratio where
  num : Nat
  den : Nat

/-- The fraction times a power. -/
private def Ratio.scale (r : Ratio) (base : Nat) (power : Int) : Ratio :=
  if 0 ≤ power then ⟨r.num * base.pow power.toNat, r.den⟩ else ⟨r.num, r.den * base.pow (-power).toNat⟩

private def Ratio.floor (r : Ratio) : Nat := r.num / r.den

private def Ratio.le (a b : Ratio) : Bool := a.num * b.den ≤ b.num * a.den

/-- The nearest integer; of two the even one. -/
private def Ratio.round (r : Ratio) : Nat :=
  let q := r.floor
  let twice := 2 * (r.num % r.den)
  if twice < r.den || (twice = r.den && q % 2 = 0) then q else q + 1

/-- A binary number `mantissa * 2 ^ power`. -/
private structure Binary where
  mantissa : Nat
  power : Int

/-- The least mantissa of 53 digits. -/
private def leastMantissa : Nat := 0x10000000000000

private def leastPower : Int := -1074

private def greatestPower : Int := 971

/-- The nearest number of double precision, unless the number is too large. -/
private def Ratio.toBinary (r : Ratio) : Option Binary :=
  let power : Int := (r.num.log2 : Int) - r.den.log2 - 52
  let first := (r.scale 2 (-power)).floor
  let power :=
    if 2 * leastMantissa ≤ first then power + 1
    else if first < leastMantissa then power - 1
    else power
  let power := max power leastPower
  let mantissa := (r.scale 2 (-power)).round
  let (mantissa, power) :=
    if mantissa = 2 * leastMantissa then (leastMantissa, power + 1) else (mantissa, power)
  if greatestPower < power then none else some ⟨mantissa, power⟩

/-- Whether all readers take the number for the given one. -/
private def Binary.holds (b : Binary) (r : Ratio) : Bool :=
  let edge (n : Nat) (power : Int) : Ratio := (Ratio.mk n 1).scale 2 power
  let low :=
    if b.mantissa = leastMantissa && leastPower < b.power then
      edge (4 * b.mantissa - 1) (b.power - 2)
    else edge (2 * b.mantissa - 1) (b.power - 1)
  let high := edge (2 * b.mantissa + 1) (b.power - 1)
  if b.mantissa % 2 = 0 then low.le r && r.le high else !(r.le low) && !(high.le r)

/-- The nearest decimal of `count` digits that stands for the number. `top` is the power of ten of
its first digit. -/
private def Binary.decimalOf (b : Binary) (top : Int) (count : Nat) : Option (Nat × Int) :=
  let value := (Ratio.mk b.mantissa 1).scale 2 b.power
  let exponent := top - count + 1
  let at_ (n : Nat) : Ratio := (Ratio.mk n 1).scale 10 exponent
  let scaled := value.scale 10 (-exponent)
  let near := scaled.round
  let other := if near = scaled.floor then near + 1 else scaled.floor
  if b.holds (at_ near) then some (near, exponent)
  else if b.holds (at_ other) then some (other, exponent)
  else none

private def Binary.topDigit (b : Binary) : Int :=
  let value := (Ratio.mk b.mantissa 1).scale 2 b.power
  let guess : Int := (((b.mantissa.log2 : Int) + b.power) * 1233) / 4096
  let reaches (e : Int) : Bool := ((Ratio.mk 1 1).scale 10 e).le value
  if reaches (guess + 1) then guess + 1 else if reaches guess then guess else guess - 1

private def Binary.shortest (b : Binary) : Nat × Int :=
  ((List.range 17).findSome? fun k => b.decimalOf b.topDigit (k + 1)).getD (b.mantissa, 0)

/-- Writes `n * 10 ^ exponent` with a point and at least one digit on each side of it. -/
private def positional (n : Nat) (exponent : Int) : String :=
  if 0 ≤ exponent then toString (n * Nat.pow 10 exponent.toNat) ++ ".0"
  else
    let places := (-exponent).toNat
    let digits := (toString n).toList
    let digits := List.replicate (places + 1 - digits.length) '0' ++ digits
    let whole := digits.length - places
    String.ofList (digits.take whole ++ '.' :: digits.drop whole)

/-- Drops zeros at the end of the digits. -/
private def trimZeros : (fuel : Nat) → Nat → Int → Nat × Int
  | 0, n, e => (n, e)
  | fuel + 1, n, e => if 0 < n && n % 10 = 0 then trimZeros fuel (n / 10) (e + 1) else (n, e)

namespace Decimal

/-- Far beyond these powers of ten there are no numbers of double precision. -/
private def limit : Int := 400

def render (d : Decimal) : String :=
  let size : Int := d.exponent + (toString d.digits).length
  let text :=
    if d.digits = 0 || size < -limit then "0.0"
    else if limit < size then "inf"
    else
      match ((Ratio.mk d.digits 1).scale 10 d.exponent).toBinary with
      | none => "inf"
      | some b =>
        if b.mantissa = 0 then "0.0"
        else
          let (n, e) := b.shortest
          let (n, e) := trimZeros 20 n e
          positional n e
  if d.negative then "-" ++ text else text

end Decimal

end StructProjection.Text
