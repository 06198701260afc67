/-!
# Characters of markup

Which characters a document may hold, and which of them names are made of.

* **isAllowed** — the characters that may stand in a document at all.
* **isSpace** — what sets the parts of a tag apart.
* **isNameStart**, **isNamePart** — the characters of names, colons left out.
* **isSimpleName**, **isName** — names without and with colons.
* **byteSize** — how many bytes characters take.
* **lineEnds** — characters with line ends written as line feeds.
-/

namespace MarkupRouting.Markup

/-- The character lies in one of the given ranges, ends included. -/
def inRanges (ranges : List (Nat × Nat)) (c : Char) : Bool :=
  ranges.any (fun (low, high) => low ≤ c.toNat && c.toNat ≤ high)

/-- The character may stand in a document. -/
def isAllowed (c : Char) : Bool :=
  let n := c.toNat
  (0x20 ≤ n && n ≤ 0xD7FF) || n == 0x09 || n == 0x0A || n == 0x0D || (0xE000 ≤ n && n ≤ 0xFFFD)
    || (0x10000 ≤ n && n ≤ 0x10FFFF)

/-- The character sets the parts of a tag apart. -/
def isSpace (c : Char) : Bool :=
  c.toNat == 0x20 || c.toNat == 0x09 || c.toNat == 0x0A || c.toNat == 0x0D

/-- The ranges of the characters beyond ASCII with which a name may begin. -/
def nameStartRanges : List (Nat × Nat) :=
  [(0xC0, 0xD6), (0xD8, 0xF6), (0xF8, 0x2FF), (0x370, 0x37D), (0x37F, 0x1FFF), (0x200C, 0x200D),
    (0x2070, 0x218F), (0x2C00, 0x2FEF), (0x3001, 0xD7FF), (0xF900, 0xFDCF), (0xFDF0, 0xFFFD),
    (0x10000, 0xEFFFF)]

/-- The ranges of the characters beyond ASCII that may stand in a name but not begin it. -/
def namePartRanges : List (Nat × Nat) := [(0xB7, 0xB7), (0x300, 0x36F), (0x203F, 0x2040)]

/-- The character may begin a name; colons are looked at elsewhere. -/
def isNameStart (c : Char) : Bool := c.isAlpha || c == '_' || inRanges nameStartRanges c

/-- The character may stand in a name; colons are looked at elsewhere. -/
def isNamePart (c : Char) : Bool :=
  isNameStart c || c.isDigit || c == '.' || c == '-' || inRanges namePartRanges c

/-- The characters are a name without a colon. -/
def isSimpleName : List Char → Bool
  | [] => false
  | c :: rest => isNameStart c && rest.all isNamePart

/-- The characters are a name, in which colons may stand anywhere. -/
def isName : List Char → Bool
  | [] => false
  | c :: rest =>
    (isNameStart c || c == ':') && rest.all (fun d => isNamePart d || d == ':')

/-- How many bytes characters take. -/
def byteSize (cs : List Char) : Nat := cs.foldl (fun n c => n + c.utf8Size) 0

/-- The characters with line ends written as line feeds: a carriage return alone is a line end, and
one in front of a line feed is a part of it. -/
def lineEnds : List Char → List Char
  | [] => []
  | '\r' :: '\n' :: rest => '\n' :: lineEnds rest
  | c :: rest => (if c == '\r' then '\n' else c) :: lineEnds rest

end MarkupRouting.Markup
