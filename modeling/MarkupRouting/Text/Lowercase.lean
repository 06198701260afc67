/-!
# Lower case

Lower-casing as far as it can lead to an ASCII letter, which is all that comparing a text with
ASCII words needs.

* **lowerAscii** — the ASCII letter that is the lower case of a character, if there is one, else the
  character itself.

The capital I with a dot above becomes two characters, an `i` and a combining dot, so that no text
with it equals an ASCII word.
-/

namespace MarkupRouting.Text

/-- The lower case of the ASCII capitals and of the Kelvin sign, the one character beyond ASCII
whose lower case is an ASCII letter; any other character stays as it is. -/
def lowerAscii (c : Char) : Char :=
  if 'A' ≤ c && c ≤ 'Z' then Char.ofNat (c.toNat + 32)
  else if c.toNat == 0x212A then 'k'
  else c

end MarkupRouting.Text
