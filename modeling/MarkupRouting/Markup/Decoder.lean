import MarkupRouting.Markup.Declaration
import MarkupRouting.Text.Lowercase

/-!
# Decoding documents

The characters of a document from its bytes, which may come in pieces that end anywhere. Where bytes
of UTF-8 are no character, one that may not stand in a document takes their place.

* **Encoding** — the encodings that can be read.
* **Decoding**, **Decoding.step** — what is known between two bytes; one byte more.
* **Choice.of** — the encoding that the first bytes of a document tell.
* **Decoder.feed** — the characters of one piece more; nothing where the bytes are none of another
  encoding.
-/

namespace MarkupRouting.Markup

/-- The encodings that can be read. -/
inductive Encoding where
  | utf8
  | utf16 (highFirst : Bool)
  | latin1
  | ascii
  deriving DecidableEq, Repr

namespace Encoding

/-- The encodings that a document can name. -/
def named : List (String × Encoding) :=
  [("utf-8", utf8), ("utf8", utf8), ("iso-8859-1", latin1), ("iso-latin-1", latin1),
    ("latin1", latin1), ("us-ascii", ascii), ("ascii", ascii)]

/-- The encoding of a given name, in letters of either case. -/
def ofName? (name : String) : Option Encoding :=
  named.lookup (String.ofList (name.toList.map Text.lowerAscii))

end Encoding

/-! ## One byte after the other -/

/-- The character with the given number. -/
def character? (n : Nat) : Option Char :=
  if h : n.isValidChar then some (Char.ofNatAux n h) else none

/-- What is known between two bytes. -/
inductive Decoding where
  /-- Of a character `come` bytes have come and `owed` are still to come, the next of them from
  `low` to `high`; `value` is what the bytes so far say. -/
  | utf8 (come owed value low high : Nat)
  /-- The first byte of a unit, and the first unit of a character, where they have come. -/
  | utf16 (highFirst : Bool) (byte : Option Nat) (lead : Option Nat)
  /-- Every byte below the limit is a character. -/
  | single (limit : Nat)
  deriving DecidableEq, Repr

namespace Decoding

/-- Between two characters of an encoding. -/
def start : Encoding → Decoding
  | .utf8 => utf8 0 0 0 0x80 0xBF
  | .utf16 highFirst => utf16 highFirst none none
  | .latin1 => single 0x100
  | .ascii => single 0x80

/-- What takes the place of bytes that are no character. -/
def noCharacter : Char := Char.ofNat 0xFFFF

/-- The first byte of a character. The bounds of the second byte leave out what has a shorter
form and what is no character. -/
def first (b : Nat) : Decoding × List Char :=
  if b < 0x80 then (start .utf8, (character? b).toList)
  else if 0xC2 ≤ b && b ≤ 0xDF then (utf8 1 1 (b - 0xC0) 0x80 0xBF, [])
  else if 0xE0 ≤ b && b ≤ 0xEF then
    (utf8 1 2 (b - 0xE0) (if b == 0xE0 then 0xA0 else 0x80) (if b == 0xED then 0x9F else 0xBF), [])
  else if 0xF0 ≤ b && b ≤ 0xF4 then
    (utf8 1 3 (b - 0xF0) (if b == 0xF0 then 0x90 else 0x80) (if b == 0xF4 then 0x8F else 0xBF), [])
  else (start .utf8, [noCharacter])

/-- The next unit of a character. -/
def unit (highFirst : Bool) (lead : Option Nat) (u : Nat) : Option (Decoding × List Char) :=
  match lead with
  | none =>
    if 0xD800 ≤ u && u ≤ 0xDBFF then some (utf16 highFirst none (some u), [])
    else (character? u).map (fun c => (start (.utf16 highFirst), [c]))
  | some l =>
    if 0xDC00 ≤ u && u ≤ 0xDFFF then
      (character? (0x10000 + (l - 0xD800) * 0x400 + (u - 0xDC00))).map
        (fun c => (start (.utf16 highFirst), [c]))
    else none

/-- One byte more: what is known afterwards, and the characters that are complete with it. A byte
that cannot go on with a character begins the next one. -/
def step (d : Decoding) (byte : UInt8) : Option (Decoding × List Char) :=
  let b := byte.toNat
  match d with
  | utf8 _ 0 _ _ _ => some (first b)
  | utf8 come (owed + 1) value low high =>
    if low ≤ b && b ≤ high then
      let value := value * 0x40 + (b - 0x80)
      if owed == 0 then some (start .utf8, (character? value).toList)
      else some (utf8 (come + 1) owed value 0x80 0xBF, [])
    else
      let (d, cs) := first b
      some (d, noCharacter :: cs)
  | utf16 highFirst none lead => some (utf16 highFirst (some b) lead, [])
  | utf16 highFirst (some a) lead =>
    unit highFirst lead (if highFirst then a * 0x100 + b else b * 0x100 + a)
  | single limit =>
    if b < limit then (character? b).map (fun c => (single limit, [c])) else none

/-- How many bytes have come of a character of UTF-8 that is not complete. -/
def torn : Decoding → Nat
  | utf8 come _ _ _ _ => come
  | _ => 0

/-- Anything has begun that is not complete. -/
def isOpen : Decoding → Bool
  | utf8 come _ _ _ _ => come != 0
  | utf16 _ byte lead => byte.isSome || lead.isSome
  | single _ => false

end Decoding

/-! ## The first bytes -/

/-- What the first bytes of a document tell of its encoding. -/
inductive Choice where
  /-- There are too few of them. -/
  | wait
  /-- The document has the given encoding. -/
  | known (e : Encoding)
  /-- The document names an encoding that cannot be read. -/
  | unknown
  deriving DecidableEq, Repr

namespace Choice

/-- The bytes of the word with which a declaration begins. -/
def opening : List UInt8 := [0x3C, 0x3F, 0x78, 0x6D, 0x6C]

/-- The bytes in front of the first pair that ends a declaration, as characters. -/
def untilEnd : List UInt8 → Option (List Char)
  | 0x3F :: 0x3E :: _ => some []
  | b :: rest => (untilEnd rest).map (Char.ofNat b.toNat :: ·)
  | [] => none

/-- The encoding that a declaration names. One that cannot be read at all is left to the reader of
the document. -/
def declared (cs : List Char) : Choice :=
  match Declaration.read cs with
  | some d =>
    match d.encoding with
    | some name =>
      match Encoding.ofName? name with
      | some e => known e
      | none => unknown
    | none => known .utf8
  | none => known .utf8

/-- The encoding that the first bytes of a document tell: by a mark of byte order, by the width of
the characters that begin a declaration, else by the declaration, else there is only one. -/
def of (bytes : List UInt8) : Choice :=
  match bytes with
  | [] | [0xFE] | [0xFF] => wait
  | 0xFE :: 0xFF :: _ | 0x00 :: 0x3C :: 0x00 :: 0x3F :: _ => known (.utf16 true)
  | 0xFF :: 0xFE :: _ | 0x3C :: 0x00 :: 0x3F :: 0x00 :: _ => known (.utf16 false)
  | _ =>
    if bytes.isPrefixOf opening then wait
    else if opening.isPrefixOf bytes then
      match bytes.drop opening.length with
      | [] => wait
      | b :: rest =>
        if isSpace (Char.ofNat b.toNat) then
          match untilEnd (b :: rest) with
          | some cs => declared cs
          | none => wait
        else known .utf8
    else known .utf8

end Choice

/-! ## Pieces of a document -/

/-- What is known between two pieces of a document. -/
structure Decoder where
  /-- The decoding, once the encoding is known. -/
  decoding : Option Decoding
  /-- The bytes that came before it was. -/
  held : List UInt8
  /-- A character has come; a mark of byte order in front of it is none. -/
  begun : Bool
  deriving Repr

namespace Decoder

/-- Before the first piece, for a document of a known encoding or not. -/
def start (encoding : Option Encoding) : Decoder :=
  { decoding := encoding.map Decoding.start, held := [], begun := false }

/-- How many bytes have come of a character of UTF-8 that is not complete. -/
def torn (d : Decoder) : Nat := (d.decoding.map Decoding.torn).getD 0

/-- Anything has begun that is not complete. -/
def isOpen (d : Decoder) : Bool := d.decoding.any Decoding.isOpen

/-- One byte more; the characters come last one first. -/
def step (s : List Char × Decoding) (byte : UInt8) : Option (List Char × Decoding) :=
  (s.2.step byte).map fun (decoding, cs) => (cs.reverse ++ s.1, decoding)

/-- Characters without the mark of byte order that may come first. -/
def withoutMark : List Char → List Char
  | [] => []
  | c :: rest => if c.toNat == 0xFEFF then rest else c :: rest

/-- The characters of bytes whose decoding is known. -/
def decode (d : Decoder) (decoding : Decoding) (bytes : List UInt8) :
    Option (List Char × Decoder) :=
  (bytes.foldlM step ([], decoding)).map fun (read, decoding) =>
    let cs := read.reverse
    (if d.begun then cs else withoutMark cs,
      { decoding := some decoding, held := [], begun := d.begun || !cs.isEmpty })

/-- The characters of one piece more. -/
def feed (d : Decoder) (bytes : List UInt8) : Option (List Char × Decoder) :=
  match d.decoding with
  | some decoding => d.decode decoding bytes
  | none =>
    let bytes := d.held ++ bytes
    match Choice.of bytes with
    | .wait => some ([], { d with held := bytes })
    | .known e => d.decode (Decoding.start e) bytes
    | .unknown => none

end Decoder

end MarkupRouting.Markup
