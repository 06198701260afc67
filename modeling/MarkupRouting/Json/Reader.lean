import MarkupRouting.Value

/-!
# Reading values from JSON

JSON texts as values. A number with a fraction or an exponent is a double, any other one an integer;
`NaN`, `Infinity` and `-Infinity` are read as doubles; of several fields with one name the first
place and the last value count.

* **Json.Limits** — how deep lists and records may nest and how long integers may be.
* **Json.readWithin** — the value of a text, or why there is none within the limits.
* **Json.read** — the value of a text without limits, nothing where the text is not JSON.
-/

namespace MarkupRouting.Json

/-- How much of a text is read. -/
structure Limits where
  /-- How many lists and records may be open at once. -/
  depth : Nat
  /-- How many digits an integer may have. -/
  digits : Nat
  deriving DecidableEq, Repr

/-- Why a text is not read. -/
inductive Flaw where
  /-- It is not JSON. -/
  | malformed
  /-- Too many lists and records are open at once. -/
  | tooDeep
  /-- An integer has too many digits. -/
  | tooLong
  deriving DecidableEq, Repr

/-- The characters that may stand between the parts of a JSON text. -/
def isGap (c : Char) : Bool := c == ' ' || c == '\t' || c == '\n' || c == '\r'

/-- The text behind its leading gap. -/
def skipGap (cs : List Char) : List Char := cs.dropWhile isGap

/-- The number written by four hexadecimal digits. -/
def unit? (a b c d : Char) : Option Nat := do
  let a ← Text.hexValue? a
  let b ← Text.hexValue? b
  let c ← Text.hexValue? c
  let d ← Text.hexValue? d
  return ((a * 16 + b) * 16 + c) * 16 + d

/-- The character behind a backslash, for the escapes of one character. -/
def escaped? (c : Char) : Option Char :=
  match c with
  | '\\' => some '\\'
  | '/' => some '/'
  | 'b' => some (Char.ofNat 0x08)
  | 'f' => some (Char.ofNat 0x0C)
  | 'n' => some '\n'
  | 'r' => some '\r'
  | 't' => some '\t'
  | c => if c.toNat == 0x22 then some c else none

/-- A UTF-16 unit added to what was read: the second half of a pair joins the first one, and half a
pair alone becomes U+FFFD. -/
def addUnit (read : List Char) (first : Option Nat) (unit : Nat) : List Char × Option Nat :=
  let lone := Char.ofNat 0xFFFD
  match first with
  | some high =>
    if 0xDC00 ≤ unit && unit ≤ 0xDFFF then
      (Char.ofNat (0x10000 + (high - 0xD800) * 0x400 + (unit - 0xDC00)) :: read, none)
    else if 0xD800 ≤ unit && unit ≤ 0xDBFF then (lone :: read, some unit)
    else (Char.ofNat unit :: lone :: read, none)
  | none =>
    if 0xD800 ≤ unit && unit ≤ 0xDBFF then (read, some unit)
    else if 0xDC00 ≤ unit && unit ≤ 0xDFFF then (lone :: read, none)
    else (Char.ofNat unit :: read, none)

/-- What was read, with a first half of a pair that stayed alone. -/
def settleUnit (read : List Char) : Option Nat → List Char
  | some _ => Char.ofNat 0xFFFD :: read
  | none => read

/-- Reads a string behind its opening quote, `read` being what was read so far, last character
first. -/
def readText : List Char → Option Nat → List Char → Option (String × List Char)
  | _, _, [] => none
  | read, first, '\\' :: 'u' :: a :: b :: c :: d :: rest =>
    match unit? a b c d with
    | some unit =>
      let (read, first) := addUnit read first unit
      readText read first rest
    | none => none
  | read, first, '\\' :: c :: rest =>
    match escaped? c with
    | some c => readText (c :: settleUnit read first) none rest
    | none => none
  | read, first, c :: rest =>
    if c.toNat == 0x22 then some (String.ofList (settleUnit read first).reverse, rest)
    else if c.toNat < 0x20 || c == '\\' then none
    else readText (c :: settleUnit read first) none rest

/-- The number written by decimal digits. -/
def digitsValue (cs : List Char) : Nat := cs.foldl (fun n c => 10 * n + (c.toNat - 0x30)) 0

/-- Splits off the leading digits. -/
def spanDigits (cs : List Char) : List Char × List Char := cs.span Char.isDigit

/-- Reads the exponent of a number, if there is one. -/
def readExponent (cs : List Char) : Option (Int × List Char) :=
  match cs with
  | e :: rest =>
    if e == 'e' || e == 'E' then
      let (negative, rest) := match rest with
        | '-' :: r => (true, r)
        | '+' :: r => (false, r)
        | r => (false, r)
      let (digits, rest) := spanDigits rest
      if digits.isEmpty then none
      else
        let n : Int := digitsValue digits
        some (if negative then -n else n, rest)
    else none
  | [] => none

/-- Reads the fraction of a number, if there is one: its digits. -/
def readFraction (cs : List Char) : Option (List Char × List Char) :=
  match cs with
  | '.' :: rest =>
    let (digits, rest) := spanDigits rest
    if digits.isEmpty then none else some (digits, rest)
  | _ => none

/-- Splits off the digits in front of the point of a number: a zero alone, or all leading digits. -/
def spanWhole : List Char → List Char × List Char
  | '0' :: rest => (['0'], rest)
  | cs => spanDigits cs

/-- Reads a number behind its sign. -/
def readNumber (limits : Limits) (negative : Bool) (cs : List Char) :
    Except Flaw (Value × List Char) :=
  let (whole, rest) := spanWhole cs
  if whole.isEmpty then .error .malformed
  else
    let fraction := readFraction rest
    let (digits, afterFraction) := fraction.getD ([], rest)
    let exponent := readExponent afterFraction
    if fraction.isNone && exponent.isNone then
      let n : Int := digitsValue whole
      if limits.digits < whole.length then .error .tooLong
      else .ok (.int (if negative then -n else n), rest)
    else
      let (power, afterAll) := exponent.getD (0, afterFraction)
      .ok (.double (Double.ofDecimal negative (digitsValue (whole ++ digits))
        (power - digits.length)), afterAll)

/-- The rest behind a given word, if the text begins with it. -/
def afterWord? (word : String) (cs : List Char) : Option (List Char) :=
  if word.toList.isPrefixOf cs then some (cs.drop word.length) else none

/-- The words that stand for values. -/
def words : List (String × Value) :=
  [("null", .null), ("true", .bool true), ("false", .bool false), ("NaN", .double Double.nan),
    ("Infinity", .double (Double.infinity false)), ("-Infinity", .double (Double.infinity true))]

/-- The value of the word that a text begins with, and the text behind it. -/
def readWord (cs : List Char) : Option (Value × List Char) :=
  words.findSome? (fun (w, v) => (afterWord? w cs).map (fun rest => (v, rest)))

mutual

/-- Reads a value; `fuel` bounds the number of values and brackets read. The depth among the limits
is what is left of it. -/
def readValue : Nat → Limits → List Char → Except Flaw (Value × List Char)
  | 0, _, _ => .error .malformed
  | fuel + 1, limits, cs =>
    match readWord cs with
    | some found => .ok found
    | none =>
      match cs with
      | '[' :: rest =>
        match limits.depth with
        | 0 => .error .tooDeep
        | depth + 1 =>
          match skipGap rest with
          | ']' :: rest => .ok (.list [], rest)
          | rest =>
            (readItems fuel { limits with depth } [] rest).map
              (fun (items, rest) => (.list items, rest))
      | '\x7b' :: rest =>
        match limits.depth with
        | 0 => .error .tooDeep
        | depth + 1 =>
          match skipGap rest with
          | '\x7d' :: rest => .ok (.record [], rest)
          | rest =>
            (readFields fuel { limits with depth } [] rest).map
              (fun (fields, rest) => (.record fields, rest))
      | '-' :: rest => readNumber limits true rest
      | c :: rest =>
        if c.toNat == 0x22 then
          match readText [] none rest with
          | some (s, rest) => .ok (.text s, rest)
          | none => .error .malformed
        else readNumber limits false (c :: rest)
      | [] => .error .malformed

/-- Reads the items of a list up to its closing bracket; `items` are those read so far, last one
first. -/
def readItems : Nat → Limits → List Value → List Char → Except Flaw (List Value × List Char)
  | 0, _, _, _ => .error .malformed
  | fuel + 1, limits, items, cs =>
    match readValue fuel limits (skipGap cs) with
    | .error flaw => .error flaw
    | .ok (v, rest) =>
      match skipGap rest with
      | ']' :: rest => .ok ((v :: items).reverse, rest)
      | ',' :: rest => readItems fuel limits (v :: items) rest
      | _ => .error .malformed

/-- Reads the fields of a record up to its closing bracket; `fields` are those read so far, last one
first. -/
def readFields :
    Nat → Limits → List (String × Value) → List Char →
      Except Flaw (List (String × Value) × List Char)
  | 0, _, _, _ => .error .malformed
  | fuel + 1, limits, fields, cs =>
    match skipGap cs with
    | c :: rest =>
      if c.toNat == 0x22 then
        match readText [] none rest with
        | none => .error .malformed
        | some (name, rest) =>
          match skipGap rest with
          | ':' :: rest =>
            match readValue fuel limits (skipGap rest) with
            | .error flaw => .error flaw
            | .ok (v, rest) =>
              match skipGap rest with
              | '\x7d' :: rest => .ok (Table.ofPairs ((name, v) :: fields).reverse, rest)
              | ',' :: rest => readFields fuel limits ((name, v) :: fields) rest
              | _ => .error .malformed
          | _ => .error .malformed
      else .error .malformed
    | [] => .error .malformed

end

/-- The value a JSON text stands for, as far as it stays within the limits. The first flaw of a text
counts. -/
def readWithin (limits : Limits) (s : String) : Except Flaw Value :=
  let cs := s.toList
  match readValue (2 * cs.length + 2) limits (skipGap cs) with
  | .ok (v, rest) => if (skipGap rest).isEmpty then .ok v else .error .malformed
  | .error flaw => .error flaw

/-- The value a JSON text stands for. No text reaches limits as large as itself. -/
def read (s : String) : Option Value := (readWithin ⟨s.length, s.length⟩ s).toOption

end MarkupRouting.Json
