import MarkupRouting.Pattern.Basic
import MarkupRouting.Value

/-!
# Patterns as values

A pattern written out as named values: its text, its steps as written and as run, and what ranks it.

* **Step.kindName** — the name of the kind of a step.
* **Pattern.toTable** — the pattern as named values.
-/

namespace MarkupRouting

/-- The name of the kind of a step. -/
def Step.kindName : Step → String
  | element _ => "LITERAL"
  | any => "SINGLE_WILDCARD"
  | deep => "DESCENDANT_WILDCARD"

/-- The name that a step asks for, if it asks for one. -/
def Step.name? : Step → Option String
  | element name => some name
  | any | deep => none

/-- A step as a list: its kind, the name it asks for and its text. -/
def Step.toValue (s : Step) : Value :=
  .list [.text s.kindName, .ofText? s.name?, .text s.text]

/-- The pattern as named values. -/
def Pattern.toTable (p : Pattern) : Table Value :=
  [("source", .text p.source), ("anchored", .bool p.anchored), ("rooted", .bool p.rooted),
    ("sequence", .int p.sequence), ("segments", .list (p.segments.map Step.toValue)),
    ("steps", .list (p.steps.map (fun s => .text s.kindName))), ("literals", .int p.literals),
    ("wildcards", .int p.wildcards), ("rank_key", .list (p.rank.key.map .int))]

end MarkupRouting
