import MarkupRouting.Json.Reader

/-!
# Writing values as JSON

Values as JSON text in ASCII: every other character is written by its UTF-16 units.

* **Json.Layout** — on one line, or one item a line with a margin per level.
* **Json.write** — a value in a given layout.
* **Json.beyond?** — what of a value is beyond limits.
* **Json.Desk** — what there is to write with.
-/

namespace MarkupRouting.Json

open Text

/-- How the parts of a JSON text are set apart. -/
inductive Layout where
  /-- Everything on one line, a space after each comma and colon. -/
  | line
  /-- Every item on a line of its own, behind the given margin for each level around it. -/
  | block (margin : String)

/-- A UTF-16 unit as an escape. -/
def unitEscape (unit : Nat) : List Char := '\\' :: 'u' :: hexDigits 4 unit

/-- One character inside a JSON string. -/
def escapeChar (c : Char) : List Char :=
  let n := c.toNat
  if n == 0x22 || n == 0x5C then ['\\', c]
  else if n == 0x0A then ['\\', 'n']
  else if n == 0x0D then ['\\', 'r']
  else if n == 0x09 then ['\\', 't']
  else if n == 0x08 then ['\\', 'b']
  else if n == 0x0C then ['\\', 'f']
  else if 0x20 ≤ n && n ≤ 0x7E then [c]
  else if n ≤ 0xFFFF then unitEscape n
  else unitEscape (0xD800 + (n - 0x10000) / 0x400) ++ unitEscape (0xDC00 + (n - 0x10000) % 0x400)

/-- A text as a JSON string. -/
def writeText (s : String) : String :=
  let quote := Char.ofNat 0x22
  String.ofList (quote :: s.toList.flatMap escapeChar ++ [quote])

/-- How doubles are written: as in messages, with other words for what is no finite number. -/
def doubleLayout : DecimalLayout := { Value.layout with infinity := "Infinity", nan := "NaN" }

/-- The break before an item at the given level. -/
def Layout.newline : Layout → Nat → String
  | .line, _ => ""
  | .block margin, level => "\n" ++ String.join (List.replicate level margin)

/-- Why there is no layout with an indentation. -/
inductive Layout.Flaw where
  /-- It is no integer. -/
  | notInteger
  /-- It is too large, or too far below zero, for a number of characters. -/
  | tooLarge
  /-- There is not enough memory for so many characters. -/
  | noMemory
  deriving DecidableEq, Repr

/-- The layout that an indentation asks for: a number of spaces for which there is memory, a margin,
or no indentation at all. -/
def Layout.ofIndent (memory : Nat → Bool) : Value → Except Layout.Flaw Layout
  | .null => .ok .line
  | .text margin => .ok (.block margin)
  | v =>
    match v.toInt? with
    | none => .error .notInteger
    | some n =>
      if n < -Nat.pow 2 63 || Nat.pow 2 63 ≤ n then .error .tooLarge
      else if memory n.toNat then .ok (.block (String.ofList (List.replicate n.toNat ' ')))
      else .error .noMemory

/-- What stands between two items. -/
def Layout.comma : Layout → String
  | .line => ", "
  | .block _ => ","

/-- Items between brackets; nothing but the brackets where there is no item. -/
def bracketed (layout : Layout) (level : Nat) (first last : String) (items : List String) :
    String :=
  if items.isEmpty then first ++ last
  else
    let gap := layout.newline (level + 1)
    first ++ gap ++ String.intercalate (layout.comma ++ gap) items ++ layout.newline level ++ last

mutual

/-- A value as JSON text inside as many brackets as `level` says. A text mode is written as the word
that names it. -/
def writeAt (layout : Layout) (level : Nat) : Value → String
  | .null => "null"
  | .bool b => if b then "true" else "false"
  | .int n => toString n
  | .double x => x.render doubleLayout
  | .text s => writeText s
  | .mode m => writeText m.word
  | .list items => bracketed layout level "[" "]" (writeItems layout (level + 1) items)
  | .record fields => bracketed layout level "\x7b" "\x7d" (writeFields layout (level + 1) fields)

/-- The items of a list as JSON texts. -/
def writeItems (layout : Layout) (level : Nat) : List Value → List String
  | [] => []
  | v :: rest => writeAt layout level v :: writeItems layout level rest

/-- The fields of a record as JSON texts. -/
def writeFields (layout : Layout) (level : Nat) : List (String × Value) → List String
  | [] => []
  | (name, v) :: rest =>
    (writeText name ++ ": " ++ writeAt layout level v) :: writeFields layout level rest

end

/-- A value as JSON text. -/
def write (layout : Layout) (v : Value) : String := writeAt layout 0 v

/-! ## Limits -/

mutual

/-- What of a value is beyond limits, the first thing that is: too many lists and records around one
another, or an integer with too many digits. -/
def beyond? (limits : Limits) : Value → Option Flaw
  | .int n => if limits.digits < (Nat.toDigits 10 n.natAbs).length then some .tooLong else none
  | .list items =>
    match limits.depth with
    | 0 => some .tooDeep
    | depth + 1 => beyondItems? { limits with depth } items
  | .record fields =>
    match limits.depth with
    | 0 => some .tooDeep
    | depth + 1 => beyondFields? { limits with depth } fields
  | _ => none

/-- What of the items of a list is beyond limits. -/
def beyondItems? (limits : Limits) : List Value → Option Flaw
  | [] => none
  | v :: rest => (beyond? limits v).or (beyondItems? limits rest)

/-- What of the fields of a record is beyond limits. -/
def beyondFields? (limits : Limits) : List (String × Value) → Option Flaw
  | [] => none
  | (_, v) :: rest => (beyond? limits v).or (beyondFields? limits rest)

end

/-- What there is to write with. -/
structure Desk where
  /-- There is memory for a margin of so many spaces. -/
  memory : Nat → Bool
  /-- How deep the lists and records may nest, and how long the integers may be. -/
  limits : Limits

end MarkupRouting.Json
