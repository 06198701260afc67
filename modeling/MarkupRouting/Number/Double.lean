/-!
# Double precision numbers

Numbers of the IEEE 754 binary64 format, held by their bits, with exact arithmetic on the way in and
out. Every result is the correctly rounded one, to nearest with ties to the even neighbour.

* **Double.round** — the double nearest to a quotient of natural numbers.
* **Double.ratio**, **Double.ofInt** — a quotient of integers and an integer as doubles, or nothing
  where the result is too large for the format.
* **Double.ofDecimal** — the double nearest to a decimal `m · 10 ^ e`.
* **Double.sub**, **mul**, **div** — difference, product and quotient of doubles.
* **Double.isMultipleOf** — a double is a whole multiple of another one.
* **Double.magnitude** — the exact value of a finite double, without its sign, as `m · 2 ^ e`.
-/

namespace MarkupRouting

/-- A double precision number, by the sixty-four bits of its encoding. -/
structure Double where
  /-- Sign, biased exponent and fraction, from the highest bit down. -/
  bits : UInt64
  deriving DecidableEq, Repr, Inhabited

namespace Double

/-! ## Taking a double apart -/

/-- The sign bit is set. -/
def negative (x : Double) : Bool := x.bits.toNat / Nat.pow 2 63 == 1

/-- The eleven bits of the biased exponent. -/
def exponentField (x : Double) : Nat := x.bits.toNat / Nat.pow 2 52 % Nat.pow 2 11

/-- The fifty-two bits of the fraction. -/
def fraction (x : Double) : Nat := x.bits.toNat % Nat.pow 2 52

/-- The number is an infinity. -/
def isInfinite (x : Double) : Bool := x.exponentField == 2047 && x.fraction == 0

/-- The encoding stands for no number. -/
def isNaN (x : Double) : Bool := x.exponentField == 2047 && x.fraction != 0

/-- The number is a zero of either sign. -/
def isZero (x : Double) : Bool := x.exponentField == 0 && x.fraction == 0

/-- The value of a finite double without its sign, as a pair `(m, e)` that stands for
`m · 2 ^ e`. -/
def magnitude (x : Double) : Nat × Int :=
  if x.exponentField == 0 then (x.fraction, -1074)
  else (Nat.pow 2 52 + x.fraction, (x.exponentField : Int) - 1075)

/-! ## Putting a double together -/

/-- The double with the given sign and the given sixty-three lower bits. -/
def make (negative : Bool) (low : Nat) : Double :=
  ⟨UInt64.ofNat (if negative then Nat.pow 2 63 + low else low)⟩

/-- Zero. -/
def zero : Double := make false 0

/-- The lower bits of an infinity; every finite double has smaller ones. -/
def infinityBits : Nat := 2047 * Nat.pow 2 52

/-- An infinity. -/
def infinity (negative : Bool) : Double := make negative infinityBits

/-- The encoding that stands for no number. -/
def nan : Double := make false (infinityBits + Nat.pow 2 51)

/-- The encoding that stands for no number and comes of an operation without a result. -/
def invalid : Double := make true (infinityBits + Nat.pow 2 51)

/-- The natural number nearest to `num / den`, the even one of two equally near. -/
def roundDiv (num den : Nat) : Nat :=
  let quotient := num / den
  let twice := 2 * (num % den)
  if twice < den then quotient
  else if den < twice then quotient + 1
  else if quotient % 2 == 0 then quotient else quotient + 1

/-- The largest `e` with `2 ^ e ≤ num / den`, for positive `num` and `den`. -/
def floorLog (num den : Nat) : Int :=
  let guess : Int := (Nat.log2 num : Int) - (Nat.log2 den : Int)
  let reached : Bool :=
    if 0 ≤ guess then den * Nat.pow 2 guess.toNat ≤ num else den ≤ num * Nat.pow 2 (-guess).toNat
  if reached then guess else guess - 1

/-- The lower bits of the double nearest to `num / den`; those of an infinity where the quotient is
too large. Writing the rounded significand over the exponent carries into it where rounding reaches
the next power of two. -/
def roundBits (num den : Nat) : Nat :=
  if num == 0 then 0
  else
    let unit : Int := max (-1074) (floorLog num den - 52)
    let significand :=
      if 0 ≤ unit then roundDiv num (den * Nat.pow 2 unit.toNat)
      else roundDiv (num * Nat.pow 2 (-unit).toNat) den
    let low :=
      if significand < Nat.pow 2 52 then significand
      else (unit + 1075).toNat * Nat.pow 2 52 + (significand - Nat.pow 2 52)
    min low infinityBits

/-- The double nearest to `num / den` with the given sign. -/
def round (negative : Bool) (num den : Nat) : Double := make negative (roundBits num den)

/-- The quotient of two integers as a double, nothing where it is too large. A zero divided by a
negative number keeps the sign of the divisor. -/
def ratio (num den : Int) : Option Double :=
  let low := roundBits num.natAbs den.natAbs
  if low < infinityBits then some (make ((num < 0) != (den < 0)) low) else none

/-- An integer as a double, nothing where it is too large. -/
def ofInt (n : Int) : Option Double := ratio n 1

/-- The double nearest to `m · 10 ^ e` with the given sign; an infinity where the decimal is too
large. Exponents far outside the range are settled by the count of digits alone. -/
def ofDecimal (negative : Bool) (m : Nat) (e : Int) : Double :=
  if m == 0 then make negative 0
  else
    let digits : Int := (Nat.toDigits 10 m).length
    if 400 < digits + e then infinity negative
    else if digits + e < -400 then make negative 0
    else if 0 ≤ e then round negative (m * Nat.pow 10 e.toNat) 1
    else round negative m (Nat.pow 10 (-e).toNat)

/-! ## Arithmetic -/

/-- The exact value of a finite double as a quotient of an integer and a natural number. -/
def toFraction (x : Double) : Int × Nat :=
  let (m, e) := x.magnitude
  let n : Int := if 0 ≤ e then (m * Nat.pow 2 e.toNat : Nat) else m
  (if x.negative then -n else n, if 0 ≤ e then 1 else Nat.pow 2 (-e).toNat)

/-- The difference of two doubles. -/
def sub (x y : Double) : Double :=
  if x.isNaN then x
  else if y.isNaN then y
  else if x.isInfinite then
    if y.isInfinite && x.negative == y.negative then invalid else x
  else if y.isInfinite then infinity (!y.negative)
  else if x.isZero && y.isZero then make (x.negative && !y.negative) 0
  else
    let (n, d) := x.toFraction
    let (m, e) := y.toFraction
    let num := n * e - m * d
    round (num < 0) num.natAbs (d * e)

/-- The product of two doubles. -/
def mul (x y : Double) : Double :=
  let sign := x.negative != y.negative
  if x.isNaN then x
  else if y.isNaN then y
  else if x.isInfinite || y.isInfinite then
    if x.isZero || y.isZero then invalid else infinity sign
  else
    let (m, e) := x.magnitude
    let (n, f) := y.magnitude
    let unit := e + f
    if 0 ≤ unit then round sign (m * n * Nat.pow 2 unit.toNat) 1
    else round sign (m * n) (Nat.pow 2 (-unit).toNat)

/-- The quotient of two doubles, an infinity or no number for a divisor of zero. -/
def div (x y : Double) : Double :=
  let sign := x.negative != y.negative
  if x.isNaN then x
  else if y.isNaN then y
  else if x.isInfinite then if y.isInfinite then invalid else infinity sign
  else if y.isInfinite then make sign 0
  else if y.isZero then if x.isZero then invalid else infinity sign
  else
    let (m, e) := x.magnitude
    let (n, f) := y.magnitude
    let unit := e - f
    if 0 ≤ unit then round sign (m * Nat.pow 2 unit.toNat) n
    else round sign m (n * Nat.pow 2 (-unit).toNat)

/-- The number is at most zero; not so of the encoding that stands for no number. -/
def isNonpositive (x : Double) : Bool := !x.isNaN && (x.isZero || x.negative)

/-- A double is a whole multiple of another one, which is not zero. Zero alone is one of an
infinity, and what is no finite number is none. -/
def isMultipleOf (x y : Double) : Bool :=
  if x.isNaN || x.isInfinite || y.isNaN then false
  else if y.isInfinite then x.isZero
  else
    let (n, d) := x.toFraction
    let (m, e) := y.toFraction
    (n * e) % (m * d) == 0

end Double

end MarkupRouting
