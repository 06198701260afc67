import MarkupRouting.Number.Double
import MarkupRouting.Text.Blank
import MarkupRouting.Text.Digit
import MarkupRouting.Text.Lowercase

/-!
# Numbers written in texts

A double from a text: a sign, digits of any script with at most one point among them, an exponent.
Underscores may stand between two digits, blanks other than separators around the whole. Infinities
and the encoding that stands for no number are written by name.

* **Literal.digits** — the digits at the start of a text.
* **Double.ofText?** — the double that a text stands for.
-/

namespace MarkupRouting

namespace Literal

/-- The digits at the start of a text and the text behind them. An underscore between two digits is
passed over. -/
def digits : List Char → List Nat × List Char
  | '_' :: rest => ([], '_' :: rest)
  | c :: rest =>
    match Text.digit? c with
    | none => ([], c :: rest)
    | some d =>
      match rest with
      | '_' :: e :: more =>
        if (Text.digit? e).isSome then
          let (found, last) := digits (e :: more)
          (d :: found, last)
        else ([d], rest)
      | rest =>
        let (found, last) := digits rest
        (d :: found, last)
  | [] => ([], [])

/-- The number that digits write. -/
def number (ds : List Nat) : Nat := ds.foldl (fun n d => 10 * n + d) 0

/-- A sign at the start of a text: the number is negative. -/
def sign : List Char → Bool × List Char
  | '-' :: rest => (true, rest)
  | '+' :: rest => (false, rest)
  | cs => (false, cs)

/-- The exponent that makes up the whole of a text; none is zero. -/
def exponent? : List Char → Option Int
  | [] => some 0
  | e :: rest =>
    if e == 'e' || e == 'E' then
      let (negative, rest) := sign rest
      match digits rest with
      | (d :: ds, []) =>
        let n : Int := number (d :: ds)
        some (if negative then -n else n)
      | _ => none
    else none

/-- The double written by a text behind its sign. -/
def unsigned? (negative : Bool) (cs : List Char) : Option Double :=
  let word := String.ofList (cs.map Text.lowerAscii)
  if word == "inf" || word == "infinity" then some (Double.infinity negative)
  else if word == "nan" then some (if negative then Double.invalid else Double.nan)
  else
    let (whole, rest) := digits cs
    let (places, rest) := match rest with
      | '.' :: rest => digits rest
      | rest => ([], rest)
    if whole.isEmpty && places.isEmpty then none
    else
      (exponent? rest).map fun e =>
        Double.ofDecimal negative (number (whole ++ places)) (e - places.length)

end Literal

/-- The character may stand around a number: it is blank and no information separator. -/
def Literal.isGap (c : Char) : Bool := Text.isBlank c && !(0x1C ≤ c.toNat && c.toNat ≤ 0x1F)

/-- The characters without the gaps at either end. -/
def Literal.withoutGaps (cs : List Char) : List Char :=
  ((cs.dropWhile isGap).reverse.dropWhile isGap).reverse

/-- The double that a text stands for. -/
def Double.ofText? (s : String) : Option Double :=
  let (negative, cs) := Literal.sign (Literal.withoutGaps s.toList)
  Literal.unsigned? negative cs

end MarkupRouting
