import MarkupRouting.Value

/-!
# Events

A document as a sequence of events: an element is entered, a text comes, an element is left.

* **Event** — one event, with the number of open elements it belongs to.
* **Event.opened?**, **text?**, **closed?** — events from what a caller gives, with the checks that
  are made then.
* **Event.toValue** — an event as a list.
-/

namespace MarkupRouting

/-- One event of a document (`ElementOpen` and `Text` and `ElementClose`). -/
inductive Event where
  /-- An element is entered; `depth` counts the open elements with this one. -/
  | opened (name : String) (attributes : Table Value) (depth : Nat)
  /-- A text comes inside the innermost of `depth` open elements. -/
  | text (s : String) (depth : Nat)
  /-- An element is left; `depth` counts the open elements with this one. -/
  | closed (name : String) (depth : Nat)
  deriving Repr, Inhabited

namespace Event

/-- Why there is no event. -/
inductive Flaw where
  /-- The element has no name. -/
  | noName
  /-- The depth of an element is below one. -/
  | lowDepth
  /-- The depth of a text is below zero. -/
  | negativeDepth
  /-- The depth is no number. -/
  | notNumber
  deriving DecidableEq, Repr

/-- The flaw in words; none where it has no words of its own. -/
def Flaw.message : Flaw → Option String
  | noName => some "Element name cannot be empty"
  | lowDepth => some "Element depth must be >= 1"
  | negativeDepth => some "Text depth must be >= 0"
  | notNumber => none

/-- A depth that is not below the given bound. -/
def readDepth (bound : Int) (low : Flaw) (depth : Value) : Except Flaw Nat :=
  match depth.below? bound with
  | none => .error .notNumber
  | some true => .error low
  | some false => .ok ((depth.toInt?.getD bound).toNat)

/-- The name of an element. -/
def readName (name : Value) : Except Flaw String :=
  if name.isTruthy then .ok name.shown else .error .noName

/-- The event of an element that is entered (`ElementOpen.__post_init__`). The name is checked
before the depth. -/
def opened? (name : Value) (attributes : Table Value) (depth : Value) : Except Flaw Event := do
  let name ← readName name
  let depth ← readDepth 1 .lowDepth depth
  return opened name attributes depth

/-- The event of a text (`Text.__post_init__`). -/
def text? (s : String) (depth : Value) : Except Flaw Event :=
  (readDepth 0 .negativeDepth depth).map (text s)

/-- The event of an element that is left (`ElementClose.__post_init__`). -/
def closed? (name : Value) (depth : Value) : Except Flaw Event := do
  let name ← readName name
  let depth ← readDepth 1 .lowDepth depth
  return closed name depth

/-- The event as a list: its kind, what it says and its depth. -/
def toValue : Event → Value
  | opened name attributes depth =>
    .list [.text "open", .text name, .ofPairs attributes, .int depth]
  | text s depth => .list [.text "text", .text s, .int depth]
  | closed name depth => .list [.text "close", .text name, .int depth]

end Event

end MarkupRouting
