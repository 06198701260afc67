import MarkupRouting.Value

/-!
# Mappings

Entries under keys that are values of any type but lists and records. Two keys are one where they
are alike, so that numbers are told apart by what they stand for.

* **Mapping** — the entries in the order in which their keys first came.
* **Mapping.put** — one entry set: a known key keeps its place, a new one comes last.
* **Mapping.ofPairs**, **ofPairs?** — many entries set in turn; nothing where a key cannot be one.
* **Value.atMost?**, **inOrder?** — two values compared, and several in increasing order, where
  they have one.
-/

namespace MarkupRouting

/-- Entries under keys of any type, in the order in which the keys first came. -/
abbrev Mapping (α : Type) := List (Value × α)

namespace Mapping

variable {α : Type}

/-- The mapping with one entry set: a known key keeps its place, a new one comes last. -/
def put (key : Value) (v : α) : Mapping α → Mapping α
  | [] => [(key, v)]
  | (k, w) :: rest => if k.alike key then (k, v) :: rest else (k, w) :: put key v rest

/-- The mapping made of the given entries: of several with one key the first place and the last
value count. -/
def ofPairs (pairs : List (Value × α)) : Mapping α := pairs.foldl (fun m (k, v) => put k v m) []

/-- The same; nothing where a list or a record is one of the keys. -/
def ofPairs? (pairs : List (Value × α)) : Option (Mapping α) :=
  if pairs.all (·.1.isKey) then some (ofPairs pairs) else none

/-- The entries whose keys are texts. -/
def named (m : Mapping α) : Table α := m.filterMap (fun (k, v) => k.toText?.map (·, v))

end Mapping

namespace Value

/-- Where a number lies: below, among or above those that are finite. -/
def region : Value → Int
  | double x => if x.isInfinite then (if x.negative then -1 else 1) else 0
  | _ => 0

/-- The first of two numbers is at most the second one. -/
def atMostNumber (a b : Value) : Bool :=
  match a.toFraction?, b.toFraction? with
  | some (n, d), some (m, e) => n * e ≤ m * d
  | _, _ => a.region < b.region

/-- The first of two values is at most the second one: texts by their characters, numbers by what
they stand for; nothing where the two cannot be compared. -/
def atMost? (a b : Value) : Option Bool :=
  match a, b with
  | text s, text t => some (s ≤ t)
  | a, b => if a.isNumber && b.isNumber then some (atMostNumber a b) else none

/-- Values in increasing order; nothing where there are several that cannot be compared. -/
def inOrder? : List Value → Option (List Value)
  | [] => some []
  | [v] => some [v]
  | v :: rest =>
    if rest.all (fun w => (v.atMost? w).isSome) then
      some ((v :: rest).mergeSort (fun a b => (a.atMost? b).getD false))
    else none

end Value

end MarkupRouting
