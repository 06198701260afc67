import MarkupRouting.Element.Plain

/-!
# The ledger of nodes

How many nodes were built and how many of them were given up, with those who are told of every node
that is built.

* **Ledger** — the counts, the observers and what they were told.
* **Ledger.created**, **Ledger.released** — the ledger after a node was built, after a tree was
  given up.
* **Ledger.reset** — the ledger with its counts at zero.
* **Ledger.toTable** — the counts as named values.
-/

namespace MarkupRouting

/-- How many nodes were built and given up (`NodeAllocationTracker`). -/
structure Ledger where
  /-- Nodes built. -/
  built : Nat := 0
  /-- Nodes given up. -/
  freed : Nat := 0
  /-- The largest number of nodes built and not given up. -/
  peak : Nat := 0
  /-- Those who are told of every node that is built, in the order in which they asked. -/
  observers : List String := []
  /-- Who was told of which node, the last one first. -/
  told : List (String × Node) := []
  deriving Repr, Inhabited

namespace Ledger

/-- Nodes built and not given up (`NodeAllocationTracker.live`). It is negative when trees were
given up twice. -/
def live (l : Ledger) : Int := (l.built : Int) - l.freed

/-- Why nobody is told. -/
inductive Flaw where
  /-- What should be told cannot be called. -/
  | notCallable
  deriving DecidableEq, Repr

/-- The flaw in words. -/
def Flaw.message : Flaw → String
  | notCallable => "Observer must be callable"

/-- The ledger with an observer more (`add_observer`); nothing where what is given cannot be
called. -/
def observe (l : Ledger) : Option String → Except Flaw Ledger
  | some observer => .ok { l with observers := l.observers ++ [observer] }
  | none => .error .notCallable

/-- The ledger after a node was built (`node_created`). -/
def created (l : Ledger) (n : Node) : Ledger :=
  { l with
    built := l.built + 1
    peak := max l.peak (l.built + 1 - l.freed)
    told := l.observers.reverse.map (fun o => (o, n)) ++ l.told }

/-- Who was told of which node, in order. -/
def seen (l : Ledger) : List (String × Node) := l.told.reverse

/-- The ledger after a tree was given up (`node_released`): the node and every node inside it. -/
def released (l : Ledger) (n : Node) : Ledger := { l with freed := l.freed + n.size }

/-- The ledger with its counts at zero (`NodeAllocationTracker.reset`); the observers stay. -/
def reset (l : Ledger) : Ledger := { l with built := 0, freed := 0, peak := 0 }

/-- The counts as named values (`NodeAllocationTracker.to_dict`). -/
def toTable (l : Ledger) : Table Value :=
  [("created", .int l.built), ("released", .int l.freed), ("live", .int l.live),
    ("peak_live", .int l.peak)]

end Ledger

end MarkupRouting
