import MarkupRouting.Element.Ledger
import MarkupRouting.Rule.Book

/-!
# Frames

One frame is kept for every open element: the rules that select the element, the rules that may
still select something further down, and, where somebody wants it, the node as far as it is built.

An element is built when a rule with a close handler selects it, or when its parent is built, since
the parent needs everything inside it. An element that only lies on the way to a deeper match is not
built.

* **Frame** — the state of one open element; **Frame.node?** is its node as far as it is built,
  which handlers may have made another one (**Frame.nodeTag**).
* **claim** — the position of the next child of a given name.
* **Frame.addText**, **flush** — texts are held back until something else comes and then put in
  place as one; **Frame.spoil** — what comes in place of a text is in the way then.
* **Frame.complete** — the frame of an element that is left.
* **Frame.adopt** — a finished node taken in as a child.
* **Frame.release** — the frame without its node.
* **Frame.toTable** — the frame as named values.
-/

namespace MarkupRouting

/-- The next position for a name, from one, and the counts in which it is taken
(`next_position`). -/
def claim (name : String) (counts : Table Nat) : Nat × Table Nat :=
  let position := (counts.get? name).getD 0 + 1
  (position, counts.put name position)

/-- The state of one open element (`OpenFrame`). -/
structure Frame (H : Type) where
  /-- The name of the element. -/
  name : String
  /-- Its attributes in order. -/
  attributes : Table Value
  /-- Its place among the elements of its name under the same parent, from one. -/
  position : Nat
  /-- How many elements are open, this one included. -/
  depth : Nat
  /-- The rules that may still select an element further down. -/
  pending : List (Interest H)
  /-- The rules that select the element and have an open handler. -/
  openRules : List (Rule H)
  /-- The rules that select the element and have a close handler. -/
  closeRules : List (Rule H)
  /-- A node is built for the element. -/
  materializing : Bool
  /-- The text mode of the node. -/
  mode : TextMode := .keep
  /-- The path of the element, where somebody is told of it. -/
  path : Option String := none
  /-- What stands in the node so far, the last thing first; nothing while there is no node. -/
  contents : Option (List Content) := none
  /-- The texts that came since anything else did, the last one first. -/
  buffer : List String := []
  /-- How many children of each name there were. -/
  counts : Table Nat := []
  /-- What the element has in place of a name, where that is no text. -/
  misnomer : Option Value := none
  /-- Something that is no text is held back with the texts. -/
  spoiled : Bool := false
  /-- What close handlers made of the name, path, attributes, position and mode of the node. -/
  remade : Option Tag := none
  deriving Repr, Inhabited

namespace Frame

variable {H : Type}

/-- The name of the element as it was given. -/
def givenName (f : Frame H) : Value := f.misnomer.getD (.text f.name)

/-- What the frame knows of its element. -/
def tag (f : Frame H) : Tag :=
  { name := f.name, path := f.path.getD "", attributes := f.attributes,
    position := .int f.position, mode := f.mode }

/-- What is known of the node: what the frame knows of its element, or what close handlers made of
that. -/
def nodeTag (f : Frame H) : Tag := f.remade.getD f.tag

/-- The node as far as it is built. -/
def node? (f : Frame H) : Option Node := f.contents.map (fun read => ⟨f.nodeTag, read.reverse⟩)

/-- The frame with an empty node, where one is to be built, and the ledger that knows of it. -/
def start (f : Frame H) (l : Ledger) : Frame H × Ledger :=
  if f.materializing then ({ f with contents := some [] }, l.created ⟨f.tag, []⟩) else (f, l)

/-- The frame with an empty node, where one is to be built, or why there is none
(`TreeBuilder.start`): a node has to have a name and a path. -/
def start? (f : Frame H) (l : Ledger) : Except Node.Flaw (Frame H × Ledger) :=
  if f.materializing then
    (Node.make f.name f.tag.path f.attributes f.tag.position f.mode []).map (fun _ => f.start l)
  else .ok (f, l)

/-- The frame with a text held back (`add_text`); without a node the text is dropped. -/
def addText (f : Frame H) (s : String) : Frame H :=
  if f.contents.isSome then { f with buffer := s :: f.buffer } else f

/-- The frame with something held back that is no text; without a node it is dropped. -/
def spoil (f : Frame H) : Frame H := if f.contents.isSome then { f with spoiled := true } else f

/-- What stands in a node with a text more, the last thing first; an empty text is not kept. -/
def withText (contents : List Content) (s : String) : List Content :=
  if s.isEmpty then contents else .text s :: contents

/-- The frame with the texts held back put into the node as one (`flush_text`). They begin at the
edge of the element where nothing stands in the node yet, and end at it where the element is
`closing`. -/
def flush (f : Frame H) (closing : Bool) : Frame H :=
  match f.contents with
  | none => f
  | some contents =>
    if f.buffer.isEmpty then f
    else
      let text := f.mode.apply (String.join f.buffer.reverse) contents.isEmpty closing
      { f with contents := some (withText contents text), buffer := [] }

/-- The frame of an element that is left, before its close handlers are called: all its texts are in
place, and nobody made anything of its node yet. -/
def complete (f : Frame H) : Frame H := { f.flush true with remade := none }

/-- Why a node is not taken in. -/
inductive Flaw where
  /-- There is no node to take the node at the given path. -/
  | noNode (path : String)
  deriving DecidableEq, Repr

/-- The flaw in words. -/
def Flaw.message : Flaw → String
  | noNode path => "Cannot adopt " ++ path ++ ": parent is not materializing"

/-- The frame with a finished node as a child of its own (`TreeBuilder.adopt`). -/
def adopt (f : Frame H) (n : Node) : Except Flaw (Frame H) :=
  match f.contents with
  | none => .error (.noNode n.tag.path)
  | some contents => .ok { f with contents := some (n.toContent :: contents) }

/-- The frame without its node and without texts held back. -/
def emptied (f : Frame H) : Frame H := { f with contents := none, buffer := [] }

/-- The frame given up: without its node, its texts and its pending rules; the ledger knows of the
node. -/
def release (f : Frame H) (l : Ledger) : Frame H × Ledger :=
  ({ f.emptied with pending := [] }, match f.node? with
    | some n => l.released n
    | none => l)

/-- Several frames given up in turn (`release_open_frames`). -/
def releaseAll : List (Frame H) → Ledger → List (Frame H) × Ledger
  | [], l => ([], l)
  | f :: rest, l =>
    let (f, l) := f.release l
    let (rest, l) := releaseAll rest l
    (f :: rest, l)

/-- The patterns of several rules as a value. -/
def sources (rules : List (Rule H)) : Value := .list (rules.map (fun r => .text r.pattern.source))

/-- Interests as a value: each pattern with the positions reached. -/
def interestsValue (pending : List (Interest H)) : Value :=
  .list (pending.map fun i =>
    .list [.text i.rule.pattern.source, .list (i.states.map (fun (n : Nat) => .int n))])

/-- The frame as named values. -/
def toTable (f : Frame H) : Table Value :=
  [("name", .text f.name), ("attributes", .ofPairs f.attributes), ("position", .int f.position),
    ("depth", .int f.depth), ("pending", interestsValue f.pending),
    ("open_matches", sources f.openRules), ("close_matches", sources f.closeRules),
    ("materializing", .bool f.materializing), ("whitespace", .text f.mode.word),
    ("path", .ofText? f.path), ("node", (f.node?.map Node.toValue).getD .null),
    ("buffer", .list (f.buffer.reverse.map .text)), ("counts", .ofCounts f.counts)]

end Frame

end MarkupRouting
