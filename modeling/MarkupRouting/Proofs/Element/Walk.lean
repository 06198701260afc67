import MarkupRouting.Element.Ledger
import MarkupRouting.Proofs.Element.Size

/-!
# The walk through a tree

The nodes of a tree are found by a loop over a stack. It comes to them in document order, each node
in front of what is inside it, and to each of them once; so the sizes of trees add up, and so does
what the ledger takes for given up.

* **Node.preorder** — a node, then its children one after the other, each with what is inside it.
* **Node.Walk** — how far the loop has come; **Walk.next** is one round of it.
* **Walk.all_next**, **Walk.weights_next** — what a round keeps and what it uses up;
  **Walk.iterate_next_start** — a run of rounds.
* **Value.elements** — how many records of elements there are in a tree written out as values.
* **Ledger.released_eq** — what giving up a tree counts.
* **Node.nodes_in_order** — the loop, the sizes and the ledger.
-/

namespace MarkupRouting

/-! ### Document order -/

mutual

/-- The nodes in a content in document order. -/
def Content.preorder : Content → List Node
  | .text _ => []
  | .element tag contents => ⟨tag, contents⟩ :: Content.preorders contents

/-- The nodes in several contents in document order. -/
def Content.preorders : List Content → List Node
  | [] => []
  | c :: rest => Content.preorder c ++ Content.preorders rest

end

namespace Node

/-- The node, then its children in order, each with what is inside it. -/
def preorder (n : Node) : List Node := n.toContent.preorder

/-- A node comes first, and behind it its children with what is inside them. -/
theorem preorder_eq (n : Node) : n.preorder = n :: n.children.flatMap preorder := by
  have hcontents : ∀ cs : List Content,
      Content.preorders cs = (cs.filterMap Content.node?).flatMap preorder := by
    intro cs
    induction cs with
    | nil => rfl
    | cons c rest ih =>
        cases c with
        | text s => rw [Content.preorders, Content.preorder, List.nil_append, ih]; rfl
        | element tag contents => rw [Content.preorders, ih]; rfl
  rw [preorder, toContent, Content.preorder, hcontents, children]

/-- The walk through several trees comes to the nodes of each in document order. -/
theorem walk_eq_preorder (ns : List Node) : walk ns = ns.flatMap preorder := by
  fun_induction walk ns with
  | case1 => rfl
  | case2 n rest ih =>
      rw [ih, List.flatMap_append, List.flatMap_cons, preorder_eq, List.cons_append]

/-- The subtree as it is counted (`subtree_size`) and as it is walked through is one and the same
list. -/
theorem nodes_eq_preorder (n : Node) : n.nodes = n.preorder := by
  rw [nodes, walk_eq_preorder, List.flatMap_cons, List.flatMap_nil, List.append_nil]

/-! ### Sizes -/

/-- Several trees are made of as many elements as each of them. -/
theorem weights_eq_sum (ns : List Node) : weights ns = (ns.map weight).sum := by
  induction ns with
  | nil => rfl
  | cons n rest ih => rw [weights, ih, List.map_cons, List.sum_cons]

/-- It does not matter from which end the sizes of several nodes are added up. -/
theorem weights_reverse (ns : List Node) : weights ns.reverse = weights ns := by
  rw [weights_eq_sum, weights_eq_sum, List.map_reverse, List.sum_reverse]

/-- The walk comes to as many nodes as the levels of the tree have elements. -/
theorem size_eq_weight (n : Node) : n.size = n.weight := size_eq n

/-- Only where there are no trees there are no elements. -/
theorem weights_eq_zero_iff {ns : List Node} : weights ns = 0 ↔ ns = [] := by
  cases ns with
  | nil => exact iff_of_true rfl rfl
  | cons n rest =>
      refine iff_of_false ?_ (List.cons_ne_nil n rest)
      rw [weights, weight_eq_succ_weights]
      omega

/-- A tree is made of its root and of the trees of its children. -/
theorem size_eq_sum (n : Node) : n.size = 1 + (n.children.map size).sum := by
  have hsizes : size = weight := funext size_eq_weight
  rw [hsizes, weight_eq_succ_weights, weights_eq_sum]

/-! ### The loop -/

/-- How far the loop of `iter_nodes` has come: the nodes it has given out, and the trees that wait
on its stack, the next one last. -/
structure Walk where
  /-- The nodes that it has come to, in order. -/
  visited : List Node
  /-- The nodes that it will come to, each with what is inside it, the next one last. -/
  stack : List Node

namespace Walk

/-- The loop in front of its first round. -/
def start (n : Node) : Walk := ⟨[], [n]⟩

/-- One round: the node at the end of the stack is visited, and its children take its place, the
first one at the end. -/
def next (w : Walk) : Walk :=
  match w.stack.getLast? with
  | none => w
  | some n => ⟨w.visited ++ [n], w.stack.dropLast ++ n.children.reverse⟩

/-- The loop ends where nothing is on the stack. -/
theorem next_nil (visited : List Node) : next ⟨visited, []⟩ = ⟨visited, []⟩ := rfl

/-- One move of the walk: the last pending node is visited and its children take its place, the
first of them last (`iter_nodes`). -/
theorem next_concat (visited rest : List Node) (n : Node) :
    next ⟨visited, rest ++ [n]⟩ = ⟨visited ++ [n], rest ++ n.children.reverse⟩ := by
  simp [next]

/-- All nodes there are: those visited, and those in the trees on the stack. -/
def all (w : Walk) : List Node := w.visited ++ walk w.stack.reverse

/-- A round brings no node and loses none, and keeps their order. -/
theorem all_next (w : Walk) : w.next.all = w.all := by
  obtain ⟨visited, stack⟩ := w
  obtain rfl | ⟨rest, n, rfl⟩ := List.eq_nil_or_concat stack
  · rw [next_nil]
  · rw [List.concat_eq_append, next_concat]
    simp only [all]
    rw [List.reverse_append, List.reverse_append, List.reverse_reverse, List.reverse_singleton,
      List.singleton_append, walk, List.append_assoc, List.singleton_append]

/-- What is on the stack becomes one element less with every round. -/
theorem weights_next (w : Walk) : weights w.next.stack = weights w.stack - 1 := by
  obtain ⟨visited, stack⟩ := w
  obtain rfl | ⟨rest, n, rfl⟩ := List.eq_nil_or_concat stack
  · rfl
  · rw [List.concat_eq_append, next_concat]
    simp only [weights_append, weights_reverse, weights, weight_eq_succ_weights n]
    omega

/-- After so many rounds all nodes are there still, and so many elements less are on the stack. -/
theorem iterate_next (w : Walk) (rounds : Nat) :
    (next^[rounds] w).all = w.all ∧
      weights (next^[rounds] w).stack = weights w.stack - rounds := by
  induction rounds with
  | zero => exact ⟨rfl, rfl⟩
  | succ rounds ih =>
      rw [Function.iterate_succ_apply', all_next, weights_next, ih.2]
      exact ⟨ih.1, by omega⟩

/-- The loop comes to one node of the tree with every round, in document order, until it has come to
all of them; then it ends. -/
theorem iterate_next_start (n : Node) (rounds : Nat) :
    (next^[rounds] (start n)).visited = n.nodes.take rounds ∧
      ((next^[rounds] (start n)).stack = [] ↔ n.size ≤ rounds) := by
  obtain ⟨hall, hweights⟩ := iterate_next (start n) rounds
  have hstart : weights (start n).stack = n.size := by
    rw [size_eq_weight, start, weights, weights, Nat.add_zero]
  rw [hstart] at hweights
  have hnodes : (next^[rounds] (start n)).all = n.nodes := hall
  rw [all] at hnodes
  have hlength : (next^[rounds] (start n)).visited.length + (n.size - rounds) = n.size := by
    rw [← hweights, ← weights_reverse, ← length_walk, ← List.length_append, hnodes, size]
  constructor
  · rw [← hnodes]
    rcases Nat.le_total rounds n.size with hle | hge
    · exact (List.take_left' (by omega)).symm
    · -- nothing is on the stack any more
      have hempty : weights (next^[rounds] (start n)).stack = 0 := by omega
      rw [weights_eq_zero_iff] at hempty
      rw [hempty, List.reverse_nil, walk, List.append_nil, List.take_of_length_le (by omega)]
  · rw [← weights_eq_zero_iff, hweights]
    omega

end Walk

end Node

/-! ### Records -/

namespace Value

mutual

/-- The records of elements in a tree that is written out as values: a record, and those in the list
of its contents. -/
def elements : Value → Nat
  | record fields => 1 + elementsInFields fields
  | _ => 0

/-- The records of elements in the contents among the fields of a record. -/
def elementsInFields : List (String × Value) → Nat
  | [] => 0
  | (name, v) :: rest => elementsInField name v + elementsInFields rest

/-- The records of elements in one field of a record. -/
def elementsInField (name : String) : Value → Nat
  | list items => if name = "contents" then elementsInItems items else 0
  | _ => 0

/-- The records of elements in a list. -/
def elementsInItems : List Value → Nat
  | [] => 0
  | v :: rest => elements v + elementsInItems rest

end

/-- A list of contents among the fields of a record is looked at, and nothing else of them is. -/
theorem elements_element (tag : Tag) (items : List Value) :
    elements (record tag.toTable) = 1 ∧
      elements (record (tag.toTable ++ [("contents", list items)])) =
        1 + elementsInItems items := by
  have hnames : ∀ v, elementsInField "name" v = 0 ∧ elementsInField "path" v = 0 ∧
      elementsInField "position" v = 0 ∧ elementsInField "attributes" v = 0 := by
    intro v
    cases v <;> exact ⟨rfl, rfl, rfl, rfl⟩
  have hcontents : elementsInField "contents" (list items) = elementsInItems items := rfl
  simp [elements, Tag.toTable, elementsInFields, hnames, hcontents]

end Value

mutual

/-- A content that is written out has a record for each element. -/
theorem Content.elements_toValue : ∀ c : Content, c.toValue.elements = c.weight
  | .text _ => rfl
  | .element tag [] => (Value.elements_element tag []).1
  | .element tag (c :: rest) => by
      rw [Content.toValue, (Value.elements_element tag _).2, Value.elementsInItems,
        Content.elements_toValue c, Content.elements_toValues rest, Content.weight, Content.weights]

/-- So have several contents. -/
theorem Content.elements_toValues : ∀ cs : List Content,
    Value.elementsInItems (Content.toValues cs) = Content.weights cs
  | [] => rfl
  | c :: rest => by
      rw [Content.toValues, Value.elementsInItems, Content.elements_toValue c,
        Content.elements_toValues rest, Content.weights]

end

namespace Node

/-- A tree that is written out has a record for each node. -/
theorem elements_toValue (n : Node) : n.toValue.elements = n.size := by
  rw [toValue, Content.elements_toValue, size_eq_weight, weight]

end Node

/-! ### The ledger -/

namespace Ledger

/-- Several trees are given up one after the other. -/
theorem foldl_released (l : Ledger) (ns : List Node) :
    ns.foldl released l = { l with freed := l.freed + (ns.map Node.size).sum } := by
  induction ns generalizing l with
  | nil => rfl
  | cons n rest ih =>
      rw [List.foldl_cons, ih, released, List.map_cons, List.sum_cons, Nat.add_assoc]

/-- A tree is given up as its children are, each separately, and one node more. -/
theorem released_eq (l : Ledger) (n : Node) :
    l.released n =
      { n.children.foldl released l with freed := (n.children.foldl released l).freed + 1 } := by
  rw [foldl_released, released, Node.size_eq_sum, Nat.add_comm 1, Nat.add_assoc]

end Ledger

namespace Node

/-- **The walk through a tree is in document order, and sizes add up** (`iter_nodes`, `subtree_size`
and `node_released`). The loop comes to the node first and then to its children, each with what is
inside it, one node with every round; after as many rounds as the tree has nodes its stack is empty.
A tree has one node more than the trees of its children together, and as many as there are records
of elements when it is written out. Giving it up counts one node more than giving up each child
separately does. -/
theorem nodes_in_order (n : Node) :
    (n.nodes = n.preorder ∧ n.preorder = n :: n.children.flatMap preorder) ∧
    (∀ rounds, (Walk.next^[rounds] (Walk.start n)).visited = n.preorder.take rounds ∧
      ((Walk.next^[rounds] (Walk.start n)).stack = [] ↔ n.size ≤ rounds)) ∧
    n.size = 1 + (n.children.map size).sum ∧
    n.toValue.elements = n.size ∧
    ∀ l : Ledger,
      l.released n =
        { n.children.foldl Ledger.released l with
          freed := (n.children.foldl Ledger.released l).freed + 1 } ∧
      (l.released n).freed - l.freed =
        1 + (n.children.map fun c => (l.released c).freed - l.freed).sum := by
  refine ⟨⟨n.nodes_eq_preorder, n.preorder_eq⟩, fun rounds => ?_, n.size_eq_sum,
    n.elements_toValue, fun l => ⟨l.released_eq n, ?_⟩⟩
  · rw [← nodes_eq_preorder]
    exact Walk.iterate_next_start n rounds
  · have hadded : ∀ m : Node, (l.released m).freed - l.freed = m.size := fun m =>
      Nat.add_sub_cancel_left l.freed m.size
    simp only [hadded]
    exact n.size_eq_sum

end Node

end MarkupRouting
