import MarkupRouting.Value.Mapping

/-!
# Looking into records

The fields of a value that is a record, and the items of one that is a list. What is not there, or
is of another kind, counts as null, as an empty text or as an empty list.

* **Value.has**, **get** — whether a record has a field, and its value.
* **Value.str**, **yes**, **items** — a field that should be a text, a truth value or a list.
* **Value.pairs**, **entries** — the items of a list that should be pairs, with a text in front or
  not.
* **Value.ofStrings**, **orNull** — several texts, or what may be missing, as a value.
-/

namespace MarkupRouting.Value

/-- The value is a record with a field of the given name. -/
def has (v : Value) (name : String) : Bool := (v.toRecord?.bind (·.get? name)).isSome

/-- The field of the given name. -/
def get (v : Value) (name : String) : Value := (v.toRecord?.bind (·.get? name)).getD .null

/-- The text of a value. -/
def toText (v : Value) : String := v.toText?.getD ""

/-- The items of a value. -/
def toList : Value → List Value
  | list vs => vs
  | _ => []

/-- The fields of a value. -/
def fields (v : Value) : Table Value := v.toRecord?.getD []

/-- The text in the field of the given name. -/
def str (v : Value) (name : String) : String := (v.get name).toText

/-- The field of the given name counts as true. -/
def yes (v : Value) (name : String) : Bool := (v.get name).isTruthy

/-- The items of the field of the given name. -/
def items (v : Value) (name : String) : List Value := (v.get name).toList

/-- The pairs among the items of a value. -/
def pairs (v : Value) : List (Value × Value) :=
  v.toList.filterMap fun
    | list [k, x] => some (k, x)
    | _ => none

/-- The values under texts that pairs give. -/
def entries (v : Value) : Table Value := Table.ofPairs (Mapping.named v.pairs)

/-- Several texts as a value. -/
def ofStrings (ss : List String) : Value := list (ss.map text)

/-- A value that may be missing. -/
def orNull (v : Option Value) : Value := v.getD null

end MarkupRouting.Value
