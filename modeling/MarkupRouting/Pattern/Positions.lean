import MarkupRouting.Pattern.Basic

/-!
# Matching paths

A pattern is matched by keeping the set of positions that its steps can have reached. Position `i`
stands before step `i`, and position `n` behind the last of `n` steps, where a match is complete. A
name moves a position past a step that takes it; a position before a deep step may stay where it is,
and may move past the step without taking a name. Because names are taken one at a time, the
positions reached at an element serve all its children.

* **Positions** — a set of positions, increasing; **add** puts one more into it.
* **passable** — a deep step stands behind a position.
* **Search**, **close** — a set with all positions reached from it without taking a name, found by
  looking at one position after the other.
* **start**, **advance** — the positions before any name, and behind one more name.
* **accepts**, **canExtend** — the match is complete; a longer path may complete it.
* **completes** — the match is complete behind the rest of a path.
* **Pattern.matchesPath** — the pattern selects the element with the given names on its path.
-/

namespace MarkupRouting

/-- A set of positions in a list of steps, in increasing order. -/
abbrev Positions := List Nat

namespace Positions

/-- The set with one position more. -/
def add (i : Nat) : Positions → Positions
  | [] => [i]
  | j :: rest =>
    if i < j then i :: j :: rest else if i = j then j :: rest else j :: add i rest

/-- The step at position `i` is deep, so that position `i + 1` is reached from it for free. Behind
the last step there is none to look at. -/
def passable (steps : List Step) (i : Nat) : Bool :=
  if h : i < steps.length then steps[i].isDeep else false

/-- A search for all positions reached without taking a name. -/
structure Search where
  /-- The positions found so far. -/
  found : Positions
  /-- Those of them that were not looked at yet, the next one first. -/
  frontier : List Nat
  deriving DecidableEq, Repr

namespace Search

/-- One position is looked at. What is reached from it over a deep step comes next, unless it was
found before. -/
def round (steps : List Step) (s : Search) : Search :=
  match s.frontier with
  | [] => s
  | i :: rest =>
    if passable steps i && !s.found.contains (i + 1) then
      { found := add (i + 1) s.found, frontier := (i + 1) :: rest }
    else { s with frontier := rest }

/-- Several positions are looked at in turn, as long as there are any. -/
def rounds (steps : List Step) : Nat → Search → Search
  | 0, s => s
  | n + 1, s => rounds steps n (s.round steps)

end Search

/-- The set of all positions reached from the given ones without taking a name (`_closure`). The
search is over after as many rounds as there are positions to begin with and steps to pass. -/
def close (steps : List Step) (states : Positions) : Positions :=
  (Search.rounds steps (steps.length + states.length) ⟨states, states⟩).found

/-- Where one name leads from a position: a deep step stays where it is, and a step that takes the
name is passed. -/
def after? (steps : List Step) (name : String) (i : Nat) : Option Nat :=
  if h : i < steps.length then
    if steps[i].isDeep then some i
    else if steps[i].takes name then some (i + 1)
    else none
  else none

/-- The positions reached by taking exactly one name. -/
def take (steps : List Step) (states : Positions) (name : String) : Positions :=
  (states.filterMap (after? steps name)).foldr add []

/-- The positions before any name is taken (`initial_states`). -/
def start (steps : List Step) : Positions := close steps [0]

/-- The positions behind one more name (`advance`). -/
def advance (steps : List Step) (states : Positions) (name : String) : Positions :=
  let reached := take steps states name
  if reached.isEmpty then [] else close steps reached

/-- The positions behind a whole path. -/
def advanceAll (steps : List Step) (states : Positions) (path : List String) : Positions :=
  path.foldl (advance steps) states

/-- The match is complete (`accepts`). -/
def accepts (steps : List Step) (states : Positions) : Bool := states.contains steps.length

/-- A longer path may complete the match (`can_extend`). -/
def canExtend (steps : List Step) (states : Positions) : Bool := states.any (· < steps.length)

/-- The match is complete behind the rest of a path. The rest is not looked at any further once
there are no positions. -/
def completes (steps : List Step) : Positions → List String → Bool
  | states, [] => accepts steps states
  | states, name :: rest =>
    let reached := advance steps states name
    if reached.isEmpty then false else completes steps reached rest

end Positions

namespace Pattern

open Positions

/-- The pattern selects the element whose path from the root has the given names (`matches`). No
pattern selects the empty path. -/
def matchesPath (p : Pattern) (path : List String) : Bool :=
  !path.isEmpty && completes p.steps (start p.steps) path

end Pattern

end MarkupRouting
