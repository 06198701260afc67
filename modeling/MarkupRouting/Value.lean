import MarkupRouting.Number.Decimal
import MarkupRouting.Table
import MarkupRouting.Text.Quoted
import MarkupRouting.TextMode

/-!
# Values

The untyped values that reach the library from outside: what a caller hands over where a pattern, a
handler or a setting is expected, and what log records carry.

* **Value** — null, truth values, integers, doubles, texts, text modes, lists and records.
* **Value.typeName** — the name of a value's type in messages.
* **Value.quoted** — a value as it is written in messages; **Value.isWritable** tells the values
  that can be written there from those that cannot.
* **Value.isTruthy** — whether a value counts as true where a truth value is wanted.
* **Value.alike** — equality of values, under which numbers are compared by what they stand for.
-/

namespace MarkupRouting

/-- A value of no particular type. -/
inductive Value where
  /-- No value. -/
  | null
  /-- A truth value. -/
  | bool (b : Bool)
  /-- An integer of any size. -/
  | int (n : Int)
  /-- A double precision number. -/
  | double (x : Double)
  /-- A text. -/
  | text (s : String)
  /-- A text mode, as opposed to the word that names it. -/
  | mode (m : TextMode)
  /-- A list of values. -/
  | list (items : List Value)
  /-- Named values in the order in which they were given. -/
  | record (fields : List (String × Value))
  deriving Repr, Inhabited

namespace Value

/-- The name of the value's type in messages. -/
def typeName : Value → String
  | null => "NoneType"
  | bool _ => "bool"
  | int _ => "int"
  | double _ => "float"
  | text _ => "str"
  | mode _ => "WhitespaceMode"
  | list _ => "list"
  | record _ => "dict"

/-- How doubles are written, in messages as in data: positionally from `1e-4` to below `1e16`, else
with an exponent of at least two digits. -/
def layout : DecimalLayout :=
  { lowest := -4, highest := 16, exponentDigits := 2, infinity := "inf", nan := "nan" }

mutual

/-- The value as it is written in messages. -/
def quoted : Value → String
  | null => "None"
  | bool true => "True"
  | bool false => "False"
  | int n => toString n
  | double x => x.render layout
  | text s => Text.quoted s
  | mode m => "<WhitespaceMode." ++ m.word.toUpper ++ ": " ++ Text.quoted m.word ++ ">"
  | list items => "[" ++ String.intercalate ", " (quotedItems items) ++ "]"
  | record fields => "\x7b" ++ String.intercalate ", " (quotedFields fields) ++ "\x7d"

/-- The items of a list as they are written in messages. -/
def quotedItems : List Value → List String
  | [] => []
  | v :: rest => quoted v :: quotedItems rest

/-- The fields of a record as they are written in messages. -/
def quotedFields : List (String × Value) → List String
  | [] => []
  | (name, v) :: rest => (Text.quoted name ++ ": " ++ quoted v) :: quotedFields rest

end

/-- How many digits an integer may have where it is written in a message. Asking for the text of a
longer one is an error of its own, whatever was going to be said of it. -/
def digitLimit : Nat := 4300

mutual

/-- The value can be written in messages: no integer in it is too long. -/
def isWritable : Value → Bool
  | int n => (Nat.toDigits 10 n.natAbs).length ≤ digitLimit
  | list items => areWritable items
  | record fields => areWritableFields fields
  | null | bool _ | double _ | text _ | mode _ => true

/-- The items of a list can be written in messages. -/
def areWritable : List Value → Bool
  | [] => true
  | v :: rest => isWritable v && areWritable rest

/-- The fields of a record can be written in messages. -/
def areWritableFields : List (String × Value) → Bool
  | [] => true
  | (_, v) :: rest => isWritable v && areWritableFields rest

end

/-- A list of texts as it is written in messages. -/
def quotedTexts (texts : List String) : String := quoted (list (texts.map text))

/-- The value as it stands alone in a message: a text without quotes. -/
def shown : Value → String
  | text s => s
  | v => v.quoted

/-- The value counts as true: everything but null, false, zero and what is empty. -/
def isTruthy : Value → Bool
  | null => false
  | bool b => b
  | int n => n != 0
  | double x => !x.isZero
  | text s => !s.isEmpty
  | mode _ => true
  | list items => !items.isEmpty
  | record fields => !fields.isEmpty

/-- The integer a value stands for where an integer is wanted: truth values count as one and
zero. -/
def toInt? : Value → Option Int
  | bool b => some (if b then 1 else 0)
  | int n => some n
  | _ => none

/-- The value is a number; truth values are. -/
def isNumber : Value → Bool
  | bool _ | int _ | double _ => true
  | _ => false

/-- The value may stand as a name in a mapping: everything but lists and records. -/
def isKey : Value → Bool
  | list _ | record _ => false
  | _ => true

/-- Compares a value with zero: `some true` where it is at most zero, nothing where it cannot be
compared with a number. -/
def atMostZero? : Value → Option Bool
  | bool b => some (!b)
  | int n => some (n ≤ 0)
  | double x => some x.isNonpositive
  | _ => none

/-- Compares a value with an integer: `some true` where it is below, nothing where it cannot be
compared with a number. -/
def below? (bound : Int) : Value → Option Bool
  | bool b => some ((if b then 1 else 0) < bound)
  | int n => some (n < bound)
  | double x =>
    if x.isNaN then some false
    else if x.isInfinite then some x.negative
    else
      let (n, d) := x.toFraction
      some (n < bound * d)
  | _ => none

/-- A text as a value, null where there is none. -/
def ofText? : Option String → Value
  | some s => text s
  | none => null

/-- An integer as a value, null where there is none. -/
def ofInt? : Option Int → Value
  | some n => int n
  | none => null

/-- Named values as a list of pairs, which keeps their order. -/
def ofPairs (t : Table Value) : Value := list (t.map (fun (name, v) => list [text name, v]))

/-- Named texts as a list of pairs, which keeps their order. -/
def ofTexts (t : Table String) : Value := list (t.map (fun (name, s) => list [text name, text s]))

/-- Named counts as a list of pairs, which keeps their order. -/
def ofCounts (t : Table Nat) : Value := list (t.map (fun (name, n) => list [text name, int n]))

/-- The text inside a value that is a text. -/
def toText? : Value → Option String
  | text s => some s
  | _ => none

/-- The fields of a value that is a record. -/
def toRecord? : Value → Option (Table Value)
  | record fields => some fields
  | _ => none

/-! ## Equality -/

/-- The exact value of a number as a quotient, nothing for what is no finite number. -/
def toFraction? : Value → Option (Int × Nat)
  | bool b => some (if b then 1 else 0, 1)
  | int n => some (n, 1)
  | double x => if x.isNaN || x.isInfinite then none else some x.toFraction
  | _ => none

/-- Two numbers stand for the same quantity; infinities are alike when their signs are. -/
def alikeNumbers (a b : Value) : Bool :=
  match a.toFraction?, b.toFraction? with
  | some (n, d), some (m, e) => n * e == m * d
  | none, none =>
    match a, b with
    | double x, double y => x.isInfinite && y.isInfinite && x.negative == y.negative
    | _, _ => false
  | _, _ => false

mutual

/-- Two values are equal: texts by their characters, numbers by what they stand for, lists item by
item, records field by field in any order. The encoding that stands for no number is not equal to
itself. -/
def alike : Value → Value → Bool
  | null, null => true
  | text s, text t => s == t
  | mode m, mode n => m == n
  | list xs, list ys => alikeItems xs ys
  | record xs, record ys => xs.length == ys.length && alikeFields xs ys
  | a, b => alikeNumbers a b

/-- Two lists are equal item by item. -/
def alikeItems : List Value → List Value → Bool
  | [], [] => true
  | x :: xs, y :: ys => alike x y && alikeItems xs ys
  | _, _ => false

/-- Every field of the first record is in the second one with an equal value. -/
def alikeFields : List (String × Value) → List (String × Value) → Bool
  | [], _ => true
  | (name, v) :: rest, ys =>
    (match ys.lookup name with
      | some w => alike v w
      | none => false) && alikeFields rest ys

end

end Value

end MarkupRouting
