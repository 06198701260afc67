/-!
# Hexadecimal

Numbers and bytes in hexadecimal.

* **hexDigits** — a number in lower-case hexadecimal with at least a given number of digits.
* **hexValue?** — the value of a digit of either case.
* **hexText**, **hexBytes** — bytes as two digits each, and from them.
-/

namespace MarkupRouting.Text

/-- The number in lower-case hexadecimal, filled up with leading zeros to `width` digits. -/
def hexDigits (width n : Nat) : List Char :=
  let digits := Nat.toDigits 16 n
  List.replicate (width - digits.length) '0' ++ digits

/-- The value of a hexadecimal digit. -/
def hexValue? (c : Char) : Option Nat :=
  if '0' ≤ c && c ≤ '9' then some (c.toNat - 0x30)
  else if 'a' ≤ c && c ≤ 'f' then some (c.toNat - 0x57)
  else if 'A' ≤ c && c ≤ 'F' then some (c.toNat - 0x37)
  else none

/-- Bytes as two digits each. -/
def hexText (bs : List UInt8) : String := String.ofList (bs.flatMap (fun b => hexDigits 2 b.toNat))

/-- The bytes written by pairs of digits, up to the first thing that is none. -/
def hexBytes : List Char → List UInt8
  | a :: b :: rest =>
    match hexValue? a, hexValue? b with
    | some x, some y => UInt8.ofNat (x * 16 + y) :: hexBytes rest
    | _, _ => []
  | _ => []

end MarkupRouting.Text
