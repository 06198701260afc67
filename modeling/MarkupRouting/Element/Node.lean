import MarkupRouting.Element.Index
import MarkupRouting.Value

/-!
# Nodes

An element with everything inside it, as it is handed to close handlers: texts and further elements
in document order.

* **Tag** — what is known of an element when it is entered.
* **Content**, **Node** — what stands inside an element; an element with its contents.
* **Node.make** — a node from what a caller gives, refused without a name or a position.
* **Node.appendText**, **appendNode** — a node with one thing more inside it.
* **Node.text**, **fullText** — the element's own text; its text with that of all elements inside.
* **Node.index** — the children by name, from which **child?**, **childrenNamed**, **childNames**,
  **item**, **get?** and **contains** answer.
* **Node.walk**, **Node.nodes**, **Node.size** — all nodes of a tree in document order, and how many
  they are; **weight_eq_succ_weights** is why the walk ends.
-/

namespace MarkupRouting

/-- What is known of an element when it is entered. -/
structure Tag where
  /-- The name of the element. -/
  name : String
  /-- The names from the root to the element, each behind a separator. -/
  path : String
  /-- The attributes in order. -/
  attributes : Table Value
  /-- The element's place among the elements of its name under the same parent: a number, from
  one. -/
  position : Value
  /-- How the text of the element is normalised. -/
  mode : TextMode
  deriving Repr, Inhabited

/-- What stands inside an element. -/
inductive Content where
  /-- A text. -/
  | text (s : String)
  /-- An element with its contents. -/
  | element (tag : Tag) (contents : List Content)
  deriving Repr, Inhabited

/-- An element with its contents (`Node`). -/
structure Node where
  /-- What is known of it when it is entered. -/
  tag : Tag
  /-- What stands inside it, in document order. -/
  contents : List Content
  deriving Repr, Inhabited

/-- The node in a content that is an element. -/
def Content.node? : Content → Option Node
  | text _ => none
  | element tag contents => some ⟨tag, contents⟩

/-- The text in a content that is one. -/
def Content.text? : Content → Option String
  | text s => some s
  | element _ _ => none

namespace Node

/-- A node as a content of another one. -/
def toContent (n : Node) : Content := .element n.tag n.contents

/-! ## Making nodes -/

/-- Why there is no node, or nothing at a node. -/
inductive Flaw where
  /-- The name is empty. -/
  | noName
  /-- The position is below one. -/
  | badPosition
  /-- The position is no number. -/
  | notNumber
  /-- What is appended as a child is no node. -/
  | notNode
  /-- The node at the given path has no child of the given name. -/
  | noChild (path key : String)
  deriving DecidableEq, Repr

/-- The flaw in words; none where it has no words of its own. -/
def Flaw.message : Flaw → Option String
  | noName => some "Node name cannot be empty"
  | badPosition => some "Node position must be >= 1"
  | notNumber => none
  | notNode => some "Child must be a Node instance"
  | noChild path key => some (path ++ " has no child " ++ Text.quoted key)

/-- A node from what a caller gives (`Node.__post_init__`). -/
def make (name path : String) (attributes : Table Value) (position : Value) (mode : TextMode)
    (contents : List Content) : Except Flaw Node :=
  if name.isEmpty then .error .noName
  else
    match position.below? 1 with
    | none => .error .notNumber
    | some true => .error .badPosition
    | some false => .ok ⟨{ name, path, attributes, position, mode }, contents⟩

/-- The node with a text more at its end (`append_text`); an empty text is not kept. -/
def appendText (n : Node) (s : String) : Node :=
  if s.isEmpty then n else { n with contents := n.contents ++ [.text s] }

/-- The node with a child more at its end (`append_child`). -/
def appendNode (n child : Node) : Node := { n with contents := n.contents ++ [child.toContent] }

/-! ## Texts -/

/-- The texts directly inside the element, one after the other. -/
def rawText (n : Node) : String := String.join (n.contents.filterMap Content.text?)

/-- The element's own text, normalised as a whole (`Node.text`). -/
def text (n : Node) : String := n.tag.mode.apply n.rawText true true

end Node

mutual

/-- The text of a content with that of all elements inside, each element's normalised as a whole. -/
def Content.fullText : Content → String
  | .text s => s
  | .element tag contents => tag.mode.apply (Content.fullTexts contents) true true

/-- The texts of several contents, one after the other. -/
def Content.fullTexts : List Content → String
  | [] => ""
  | c :: rest => Content.fullText c ++ Content.fullTexts rest

end

namespace Node

/-- The element's text with that of all elements inside, normalised as a whole
(`Node.full_text`). -/
def fullText (n : Node) : String := n.toContent.fullText

/-! ## Children -/

/-- The elements directly inside, in document order (`Node.children`). -/
def children (n : Node) : List Node := n.contents.filterMap Content.node?

/-- The depth that the path tells (`Node.depth`): the number of its separators. -/
def depth (n : Node) : Nat := n.tag.path.toList.count '/'

/-- The children by name (`_index_child`): each is put into the index as it comes. -/
def index (n : Node) : Index Node := n.children.foldl (fun x c => x.add c.tag.name c) {}

/-- The last child of the given name (`Node.child`). -/
def child? (n : Node) (name : String) : Option Node := n.index.child? name

/-- The children of the given name, in document order (`children_named`). -/
def childrenNamed (n : Node) (name : String) : List Node := n.index.childrenNamed name

/-- The names of the children, each once, in the order in which they first come (`child_names`). -/
def childNames (n : Node) : List String := n.index.names

/-- What a key asks for among the children of a node. -/
abbrev Found := MarkupRouting.Found Node

/-- What the key asks for (`Node.__getitem__`); a single child has to be there. -/
def item (n : Node) (key : String) : Except Flaw Found := n.index.item (.noChild n.tag.path) key

/-- What the key asks for, if it is there at all (`Node.get`). -/
def get? (n : Node) (key : String) : Option Found := n.index.get? key

/-- There is a child of the given name (`Node.__contains__`). -/
def contains (n : Node) (key : String) : Bool := n.index.contains key

/-- The value of an attribute (`Node.get_attribute`). -/
def attribute? (n : Node) (name : String) : Option Value := n.tag.attributes.get? name

/-- The node with an attribute set. -/
def setAttribute (n : Node) (name : String) (value : Value) : Node :=
  { n with tag := { n.tag with attributes := n.tag.attributes.put name value } }

end Node

/-! ## Trees -/

mutual

/-- How many elements a content is made of. -/
def Content.weight : Content → Nat
  | .text _ => 0
  | .element _ contents => 1 + Content.weights contents

/-- How many elements several contents are made of. -/
def Content.weights : List Content → Nat
  | [] => 0
  | c :: rest => Content.weight c + Content.weights rest

end

namespace Node

/-- How many elements a tree is made of, counted level by level. -/
def weight (n : Node) : Nat := n.toContent.weight

/-- How many elements several trees are made of. -/
def weights : List Node → Nat
  | [] => 0
  | n :: rest => n.weight + weights rest

/-- The weights of two lists of trees add up. -/
theorem weights_append (ns ms : List Node) : weights (ns ++ ms) = weights ns + weights ms := by
  induction ns with
  | nil => exact (Nat.zero_add (weights ms)).symm
  | cons n rest ih => rw [List.cons_append, weights, ih, weights, Nat.add_assoc]

/-- The children of a node are made of one element less than the node. -/
theorem weight_eq_succ_weights (n : Node) : n.weight = 1 + weights n.children := by
  have aux : ∀ cs : List Content,
      Content.weights cs = weights (cs.filterMap Content.node?) := by
    intro cs
    induction cs with
    | nil => rfl
    | cons c rest ih =>
      cases c with
      | text s =>
        simpa [Content.weights, Content.weight, Content.node?, List.filterMap_cons] using ih
      | element tag contents =>
        simp only [Content.weights, Content.node?, List.filterMap_cons]
        rw [ih]
        simp [weights, weight, toContent]
  simp only [weight, toContent, Content.weight, children]
  rw [aux]

/-- The nodes of several trees in document order: those of the first tree come first, each node in
front of what is inside it. -/
def walk : List Node → List Node
  | [] => []
  | n :: rest => n :: walk (n.children ++ rest)
termination_by ns => weights ns
decreasing_by
  have h := weight_eq_succ_weights n
  rw [weights_append, weights, h]
  omega

/-- The node and all nodes inside it, in document order (`iter_nodes`). -/
def nodes (n : Node) : List Node := walk [n]

/-- How many nodes the tree is made of (`subtree_size`). -/
def size (n : Node) : Nat := n.nodes.length

/-- The node in words (`Node.__repr__`). -/
def quoted (n : Node) : String :=
  "Node(name=" ++ Text.quoted n.tag.name ++ ", path=" ++ Text.quoted n.tag.path ++ ", position="
    ++ n.tag.position.shown ++ ", contents=" ++ toString n.contents.length ++ ")"

end Node

end MarkupRouting
