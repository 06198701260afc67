import MarkupRouting.Element.Node
import MarkupRouting.Value

/-!
# Nodes as values

A tree written out as untyped values: a record for each element, with its contents as a list of
texts and records where it has any.

* **Node.toValue** — the record of a node.
* **Node.summary** — a node as named values, with its texts and its measures.
-/

namespace MarkupRouting

/-- What is known of an element when it is entered, as named values; the order of attributes
matters. -/
def Tag.toTable (t : Tag) : Table Value :=
  [("name", .text t.name), ("path", .text t.path), ("position", t.position),
    ("attributes", .ofPairs t.attributes)]

mutual

/-- A content as a value: a text, or the record of an element. -/
def Content.toValue : Content → Value
  | .text s => .text s
  | .element tag [] => .record tag.toTable
  | .element tag (c :: rest) =>
    .record (tag.toTable ++ [("contents", .list (Content.toValue c :: Content.toValues rest))])

/-- Several contents as values. -/
def Content.toValues : List Content → List Value
  | [] => []
  | c :: rest => Content.toValue c :: Content.toValues rest

end

/-- The record of a node (`Node.to_dict`). -/
def Node.toValue (n : Node) : Value := n.toContent.toValue

/-- The node as named values, with its texts, its mode, the names of its children and its
measures. -/
def Node.summary (n : Node) : Table Value :=
  [("tree", n.toValue), ("text", .text n.text), ("full_text", .text n.fullText),
    ("mode", .text n.tag.mode.word), ("names", .list (n.childNames.map .text)),
    ("size", .int n.size), ("depth", .int n.depth), ("repr", .text n.quoted)]

end MarkupRouting
