/-!
# Path patterns

A pattern selects elements by the names on the way from the root of a document to them.

* **Step** — one step of a pattern: an element of a given name, any one element, or any number of
  elements.
* **Pattern** — a pattern with the text it was read from and its place in the order of registration.
* **Pattern.steps** — the steps that are run: an unanchored pattern may begin at any depth.
* **Rank** — how specific a pattern is; **Rank.before** puts the more specific one first.
-/

namespace MarkupRouting

/-- One step of a pattern (`Segment`). -/
inductive Step where
  /-- Exactly one element, with the given name. -/
  | element (name : String)
  /-- Exactly one element of any name. -/
  | any
  /-- Any number of elements, none included. -/
  | deep
  deriving DecidableEq, Repr, Inhabited

namespace Step

/-- The step asks for a given name. -/
def isElement : Step → Bool
  | element _ => true
  | any | deep => false

/-- The step is one element of any name. -/
def isAny : Step → Bool
  | any => true
  | element _ | deep => false

/-- The step is any number of elements. -/
def isDeep : Step → Bool
  | deep => true
  | element _ | any => false

/-- The text of a step (`Segment.__str__`); a deep step has none, it is the doubled separator
itself. -/
def text : Step → String
  | element name => name
  | any => "*"
  | deep => ""

/-- The step takes one element of the given name and is over with it. -/
def takes (name : String) : Step → Bool
  | element n => n == name
  | any => true
  | deep => false

end Step

/-- A pattern over the names on the way from the root to an element (`Pattern`). -/
structure Pattern where
  /-- The text the pattern was read from. -/
  source : String
  /-- The steps as written. -/
  segments : List Step
  /-- The text began with a separator, so that the first step begins at the root. -/
  anchored : Bool
  /-- The pattern's place in the order of registration. -/
  sequence : Int
  deriving DecidableEq, Repr, Inhabited

namespace Pattern

/-- The steps that are run (`Pattern.__post_init__`): before those of an unanchored pattern any
number of elements may stand. -/
def steps (p : Pattern) : List Step := if p.anchored then p.segments else .deep :: p.segments

/-- How many steps ask for a given name (`literal_count`). -/
def literals (p : Pattern) : Nat := p.segments.countP Step.isElement

/-- How many steps are one element of any name (`wildcard_count`). -/
def wildcards (p : Pattern) : Nat := p.segments.countP Step.isAny

/-- The first step is taken by the root element itself (`Pattern.rooted`). -/
def rooted (p : Pattern) : Bool :=
  p.anchored && match p.segments with
    | .deep :: _ => false
    | _ => true

end Pattern

/-- How specific a pattern is. -/
structure Rank where
  /-- How many steps ask for a given name. -/
  literals : Nat
  /-- How many steps are one element of any name. -/
  wildcards : Nat
  /-- The first step is taken by the root element itself. -/
  rooted : Bool
  /-- The place in the order of registration. -/
  sequence : Int
  deriving DecidableEq, Repr, Inhabited

namespace Rank

/-- The numbers by which ranks are compared in turn, the smaller one first: more names asked for,
then more wildcards, then rooted patterns, then earlier registration. -/
def key (r : Rank) : List Int :=
  [-(r.literals : Int), -(r.wildcards : Int), if r.rooted then 0 else 1, r.sequence]

/-- The first of two lists of numbers comes before the second one in dictionary order. -/
def keyBefore : List Int → List Int → Bool
  | [], [] => false
  | [], _ :: _ => true
  | _ :: _, [] => false
  | x :: xs, y :: ys => x < y || (x == y && keyBefore xs ys)

/-- The first rank is the more specific one. -/
def before (a b : Rank) : Bool := keyBefore a.key b.key

end Rank

/-- The rank of a pattern (`rank_key`). -/
def Pattern.rank (p : Pattern) : Rank :=
  { literals := p.literals, wildcards := p.wildcards, rooted := p.rooted, sequence := p.sequence }

end MarkupRouting
