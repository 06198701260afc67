import MarkupRouting.Element.Node

/-!
# Groves

Nodes that are still being added to while they already stand inside other nodes. Every node has a
label; what is added to a node is seen wherever the node stands, so that contents name nodes by
number. A node may stand inside itself, and then has no end.

* **Grove.Cell** — one node, with its children by name, which are kept up when the node is made
  (**Cell.make**) and when something is added to it (**Cell.add**).
* **Grove** — the nodes, and the number of the node under each label.
* **Grove.plant** — a new node under a label; **Grove.add** adds to one, **appendText** and
  **appendNode** a text or a node.
* **Grove.top** — the node that stands under a label now, with its children.
* **Grove.node** — the tree that stands under a label now, if it has an end.
-/

namespace MarkupRouting

/-- What stands inside a node of a grove. -/
inductive Grove.Piece where
  /-- A text. -/
  | text (s : String)
  /-- The node with the given number. -/
  | node (number : Nat)
  deriving DecidableEq, Repr, Inhabited

/-- The number of the node that a piece is. -/
def Grove.Piece.number? : Grove.Piece → Option Nat
  | text _ => none
  | node number => some number

/-- A node of a grove. -/
structure Grove.Cell where
  /-- What is known of the element when it is entered. -/
  tag : Tag
  /-- What stands inside it. -/
  pieces : List Grove.Piece
  /-- Its children by name. -/
  index : Index Nat := {}
  deriving Repr, Inhabited

/-- What a caller adds to a node. -/
inductive Grove.Addition where
  /-- A text. -/
  | text (s : String)
  /-- The node with the given number. -/
  | node (number : Nat)
  /-- Something that is neither, as a child. -/
  | other
  deriving DecidableEq, Repr, Inhabited

namespace Grove.Cell

/-! ## One node

The names of nodes are asked for by number: `nameOf` gives them. -/

variable (nameOf : Nat → String)

/-- A node with what is inside it from the beginning (`Node.__post_init__`); the nodes among it are
put into the index. -/
def make (tag : Tag) (pieces : List Piece) : Cell :=
  { tag, pieces
    index := (pieces.filterMap Piece.number?).foldl (fun x c => x.add (nameOf c) c) {} }

/-- The node with a text more at its end (`append_text`); an empty text is not kept. -/
def appendText (cell : Cell) (s : String) : Cell :=
  if s.isEmpty then cell else { cell with pieces := cell.pieces ++ [.text s] }

/-- The node with a child more at its end, which is put into the index (`append_child`). -/
def appendNode (cell : Cell) (number : Nat) : Cell :=
  { cell with
    pieces := cell.pieces ++ [.node number]
    index := cell.index.add (nameOf number) number }

/-- The node with what a caller adds to it; only nodes are children. -/
def add (cell : Cell) : Addition → Except Node.Flaw Cell
  | .text s => .ok (cell.appendText s)
  | .node number => .ok (cell.appendNode nameOf number)
  | .other => .error .notNode

/-- The elements directly inside, in document order. -/
def children (cell : Cell) : List Nat := cell.pieces.filterMap Piece.number?

/-- The last child of the given name. -/
def child? (cell : Cell) (name : String) : Option Nat := cell.index.child? name

/-- The children of the given name, in document order. -/
def childrenNamed (cell : Cell) (name : String) : List Nat := cell.index.childrenNamed name

/-- The names of the children, each once, in the order in which they first come. -/
def childNames (cell : Cell) : List String := cell.index.names

/-- What the key asks for; a single child has to be there. -/
def item (cell : Cell) (key : String) : Except Node.Flaw (Found Nat) :=
  cell.index.item (.noChild cell.tag.path) key

/-- What the key asks for, if it is there at all. -/
def get? (cell : Cell) (key : String) : Option (Found Nat) := cell.index.get? key

/-- There is a child of the given name. -/
def contains (cell : Cell) (key : String) : Bool := cell.index.contains key

end Grove.Cell

/-- Nodes under labels, each of which may stand inside others. -/
structure Grove where
  /-- The nodes by number. -/
  cells : List Grove.Cell
  /-- The number of the node under each label. -/
  labels : Table Nat
  deriving Repr, Inhabited

namespace Grove

/-! ## All nodes -/

/-- Why there is nothing under a label. -/
inductive Flaw where
  /-- There is no such label. -/
  | unknownLabel
  /-- The node under the label stands inside itself, or one inside it does. -/
  | endless
  /-- There is no node. -/
  | node (flaw : Node.Flaw)
  deriving DecidableEq, Repr

/-- The grove without nodes. -/
def empty : Grove := { cells := [], labels := [] }

/-- The number of the node under a label. -/
def number (g : Grove) (label : String) : Except Flaw Nat :=
  match g.labels.get? label with
  | some number => .ok number
  | none => .error .unknownLabel

/-- The name of the node with the given number. -/
def nameOf (g : Grove) (number : Nat) : String :=
  (g.cells[number]?.map fun cell => cell.tag.name).getD ""

/-- The node under a label, with the numbers of its children. -/
def cell (g : Grove) (label : String) : Except Flaw Cell := do
  let number ← g.number label
  match g.cells[number]? with
  | some cell => return cell
  | none => throw .unknownLabel

/-- The tree under a number, as far down as `depth` says. -/
def unfold (cells : List Cell) : Nat → Nat → Node
  | 0, _ => default
  | depth + 1, number =>
    match cells[number]? with
    | none => default
    | some cell =>
      ⟨cell.tag, cell.pieces.map fun
        | .text s => .text s
        | .node inner => (unfold cells depth inner).toContent⟩

/-- The node under a label. What is inside its children is only counted. -/
def top (g : Grove) (label : String) : Except Flaw Node := (g.number label).map (unfold g.cells 2)

/-- The numbers of the nodes that stand directly inside others. -/
def inside (cells : List Cell) (numbers : List Nat) : List Nat :=
  (numbers.flatMap fun number =>
    match cells[number]? with
    | some cell => cell.pieces.filterMap Piece.number?
    | none => []).eraseDups

/-- A node that can be gone down from as often as there are nodes has no end. -/
def isEndless (g : Grove) (number : Nat) : Bool :=
  !(Nat.repeat (inside g.cells) g.cells.length [number]).isEmpty

/-- The tree under a label. One with an end has at most as many levels as the grove has nodes. -/
def node (g : Grove) (label : String) : Except Flaw Node := do
  let number ← g.number label
  if g.isEndless number then throw .endless
  return unfold g.cells g.cells.length number

/-- The pieces for the given contents: texts, and nodes by label. -/
def pieces (g : Grove) (contents : List (String ⊕ String)) : Except Flaw (List Piece) :=
  contents.mapM fun
    | .inl s => .ok (.text s)
    | .inr label => (g.number label).map .node

/-- A new node under a label. Where the node cannot be made, the label keeps the node it had. -/
def plant (g : Grove) (label name path : String) (attributes : Table Value) (position : Value)
    (mode : TextMode) (contents : List (String ⊕ String)) : Except Flaw Grove := do
  let pieces ← g.pieces contents
  let node ← (Node.make name path attributes position mode []).mapError .node
  return { cells := g.cells ++ [Cell.make g.nameOf node.tag pieces]
           labels := g.labels.put label g.cells.length }

/-- Adds something to the node under a label. -/
def add (g : Grove) (label : String) (a : Addition) : Except Flaw Grove := do
  let number ← g.number label
  let cell ← g.cell label
  let cell ← (cell.add g.nameOf a).mapError .node
  return { g with cells := g.cells.set number cell }

/-- Adds a text to the node under a label; an empty text is not kept. -/
def appendText (g : Grove) (label s : String) : Except Flaw Grove := g.add label (.text s)

/-- Adds the node under the second label to the node under the first one. -/
def appendNode (g : Grove) (label child : String) : Except Flaw Grove := do
  g.add label (.node (← g.number child))

end Grove

end MarkupRouting
