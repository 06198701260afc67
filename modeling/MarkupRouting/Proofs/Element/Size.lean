import Mathlib.Tactic
import MarkupRouting.Element.Node

/-!
# The size of a tree

The walk through a tree counts every element of it exactly once.

* **Content.weights_append**, **Content.weights_reverse** — the weight of several contents.
* **Node.walk_append**, **Node.nodes_eq** — the walk through several trees, and through one.
* **Node.size_eq** — a tree is made of its root and of what its contents are made of.
-/

namespace MarkupRouting

namespace Content

/-- The weights of two lists of contents add up. -/
theorem weights_append (cs ds : List Content) : weights (cs ++ ds) = weights cs + weights ds := by
  induction cs with
  | nil => simp [weights]
  | cons c rest ih => rw [List.cons_append, weights, ih, weights, Nat.add_assoc]

/-- The order of contents does not matter for their weight. -/
theorem weights_reverse (cs : List Content) : weights cs.reverse = weights cs := by
  induction cs with
  | nil => rfl
  | cons c rest ih =>
      rw [List.reverse_cons, weights_append, ih, weights, weights, weights, Nat.add_zero,
        Nat.add_comm]

end Content

namespace Node

/-- A walk through several trees is a walk through some of them and then through the others. -/
theorem walk_append (ns ms : List Node) : walk (ns ++ ms) = walk ns ++ walk ms := by
  fun_induction walk ns with
  | case1 => rfl
  | case2 n rest ih => rw [List.cons_append, walk, ← List.append_assoc, ih, List.cons_append]

/-- A node is the first one of its own subtree, in front of those of its children. -/
theorem nodes_eq (n : Node) : n.nodes = n :: walk n.children := by
  rw [nodes, walk, List.append_nil]

/-- A walk visits as many nodes as the trees are made of. -/
theorem length_walk (ns : List Node) : (walk ns).length = weights ns := by
  fun_induction walk ns with
  | case1 => rfl
  | case2 n rest ih =>
      rw [List.length_cons, ih, weights_append, weights, weight_eq_succ_weights n]
      omega

/-- A tree is made of its root and of what its contents are made of. -/
theorem size_eq (n : Node) : n.size = 1 + Content.weights n.contents := by
  rw [size, nodes, length_walk]
  simp [weights, weight, toContent, Content.weight]

end Node

end MarkupRouting
