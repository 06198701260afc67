import MarkupRouting.Text.Hex
import MarkupRouting.Text.Printable

/-!
# Quoted texts

How a text is written inside a message: between quotes, with escapes for what cannot be shown.

* **quoteFor** — the quote a text is written with: a single quote, unless the text holds a single
  quote and no double quote.
* **quoted** — the text between its quotes. The backslash, the quote in use, line feed, carriage
  return and tabulator are written with a backslash, every other unprintable character by its number
  in two, four or eight hexadecimal digits.
-/

namespace MarkupRouting.Text

/-- The quote a text is written with. -/
def quoteFor (cs : List Char) : Char :=
  if cs.contains '\'' && !cs.contains '"' then '"' else '\''

/-- One character as it is written inside the given quotes. -/
def quoteChar (quote c : Char) : List Char :=
  if c == '\\' || c == quote then ['\\', c]
  else if c == '\n' then ['\\', 'n']
  else if c == '\r' then ['\\', 'r']
  else if c == '\t' then ['\\', 't']
  else if isPrintable c then [c]
  else if c.toNat ≤ 0xFF then '\\' :: 'x' :: hexDigits 2 c.toNat
  else if c.toNat ≤ 0xFFFF then '\\' :: 'u' :: hexDigits 4 c.toNat
  else '\\' :: 'U' :: hexDigits 8 c.toNat

/-- The text between its quotes. -/
def quoted (s : String) : String :=
  let quote := quoteFor s.toList
  String.ofList (quote :: s.toList.flatMap (quoteChar quote) ++ [quote])

end MarkupRouting.Text
