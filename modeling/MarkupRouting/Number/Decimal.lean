import MarkupRouting.Number.Double

/-!
# Shortest decimals

A finite double is written with the fewest significant digits that read back as the same double, and
of those decimals with the one nearest to its value.

* **Decimal** — a count of units of a power of ten.
* **Decimal.shortest** — the decimal chosen for a positive double.
* **DecimalLayout** — the decisions of an output format: where positional notation ends and how an
  exponent is written.
* **Double.render** — a double in a given layout.
-/

namespace MarkupRouting

/-- The number `units · 10 ^ exponent`. -/
structure Decimal where
  /-- The significant digits read as one number. -/
  units : Nat
  /-- The power of ten that one unit stands for. -/
  exponent : Int
  deriving DecidableEq, Repr, Inhabited

/-- The decisions an output format takes about doubles. -/
structure DecimalLayout where
  /-- The smallest decimal exponent of the leading digit that is written positionally. -/
  lowest : Int
  /-- The first decimal exponent of the leading digit that is written with an exponent again. -/
  highest : Int
  /-- The least number of digits of a written exponent. -/
  exponentDigits : Nat
  /-- How an infinity is written, without its sign. -/
  infinity : String
  /-- How the encoding that stands for no number is written. -/
  nan : String

namespace Decimal

/-- The two decimals with the given exponent next to `num / den`, the nearer one first; the even one
first where both are equally near. -/
def neighbours (num den : Nat) (exponent : Int) : List Decimal :=
  let (scaledNum, scaledDen) :=
    if 0 ≤ exponent then (num, den * Nat.pow 10 exponent.toNat)
    else (num * Nat.pow 10 (-exponent).toNat, den)
  let below := scaledNum / scaledDen
  if Double.roundDiv scaledNum scaledDen == below then
    [⟨below, exponent⟩, ⟨below + 1, exponent⟩]
  else [⟨below + 1, exponent⟩, ⟨below, exponent⟩]

/-- The decimal as a positive double. -/
def toDouble (d : Decimal) : Double := Double.ofDecimal false d.units d.exponent

/-- The largest `e` with `10 ^ e ≤ num / den`, for positive `num` and `den`. -/
def floorLogTen (num den : Nat) : Int :=
  let guess : Int := ((Nat.toDigits 10 num).length : Int) - (Nat.toDigits 10 den).length
  let reached : Bool :=
    if 0 ≤ guess then den * Nat.pow 10 guess.toNat ≤ num else den ≤ num * Nat.pow 10 (-guess).toNat
  if reached then guess else guess - 1

/-- Tries one significant digit more in every round and takes the first decimal that reads back as
`x`. -/
def search (x : Double) (num den : Nat) (leading : Int) : Nat → Nat → Decimal
  | 0, _ => ⟨0, 0⟩
  | fuel + 1, digits =>
    match (neighbours num den (leading - digits)).find? (fun d => d.toDouble == x) with
    | some d => d
    | none => search x num den leading fuel (digits + 1)

/-- The shortest decimal that reads back as the positive double `x`, the nearest one of those.
Eighteen rounds are enough, for seventeen digits tell all doubles apart. -/
def shortest (x : Double) : Decimal :=
  let (num, den) := x.toFraction
  search x num.natAbs den (floorLogTen num.natAbs den) 18 0

/-- The decimal without zeros at the end of its digits; `fuel` bounds their number. -/
def stripZeros : Nat → Decimal → Decimal
  | 0, d => d
  | fuel + 1, d =>
    if d.units != 0 && d.units % 10 == 0 then stripZeros fuel ⟨d.units / 10, d.exponent + 1⟩ else d

/-- The decimal written in the given layout, without a sign. -/
def render (layout : DecimalLayout) (d : Decimal) : List Char :=
  let d := stripZeros 20 d
  let digits := Nat.toDigits 10 d.units
  let leading : Int := d.exponent + digits.length - 1
  if layout.lowest ≤ leading && leading < layout.highest then
    if leading < 0 then
      '0' :: '.' :: (List.replicate (-leading - 1).toNat '0' ++ digits)
    else
      let whole := leading.toNat + 1
      let front := digits.take whole
      let back := digits.drop whole
      front ++ List.replicate (whole - front.length) '0' ++
        '.' :: (if back.isEmpty then ['0'] else back)
  else
    let mantissa := match digits with
      | [] => []
      | [c] => [c]
      | c :: rest => c :: '.' :: rest
    let power := Nat.toDigits 10 leading.natAbs
    mantissa ++ 'e' :: (if leading < 0 then '-' else '+')
      :: (List.replicate (layout.exponentDigits - power.length) '0' ++ power)

end Decimal

/-- The double written in the given layout. -/
def Double.render (layout : DecimalLayout) (x : Double) : String :=
  if x.isNaN then layout.nan
  else
    let body :=
      if x.isInfinite then layout.infinity.toList
      else if x.isZero then ['0', '.', '0']
      else (Decimal.shortest (Double.make false (x.bits.toNat % Nat.pow 2 63))).render layout
    String.ofList (if x.negative then '-' :: body else body)

end MarkupRouting
