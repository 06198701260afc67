import MarkupRouting.Element.Ledger

/-!
# The ledger over several nodes

What the ledger says after several nodes were built, and who was told of them. Giving up trees in
between changes how many nodes are left, but not what was built.

* **Ledger.createdAll** — the ledger after several nodes were built.
* **Ledger.seen_createdAll**, **Ledger.peak_createdAll** — who was told of them, and the largest
  number of nodes there was.
* **Ledger.Builds** — between two ledgers these nodes were built, whatever was given up.
-/

namespace MarkupRouting

namespace Ledger

/-- The ledger after several nodes were built, one after the other. -/
def createdAll (l : Ledger) (nodes : List Node) : Ledger := nodes.foldl created l

/-- Who is told of several nodes, in order: each observer of every node, as `node_created` tells
them. -/
def tidings (observers : List String) (nodes : List Node) : List (String × Node) :=
  nodes.flatMap fun n => observers.map fun o => (o, n)

/-- Nodes are counted one by one, in their order (`node_created`). -/
theorem createdAll_cons (l : Ledger) (n : Node) (nodes : List Node) :
    l.createdAll (n :: nodes) = (l.created n).createdAll nodes := rfl

/-- To count nodes and then others is to count all of them. -/
theorem createdAll_append (l : Ledger) (front back : List Node) :
    l.createdAll (front ++ back) = (l.createdAll front).createdAll back := List.foldl_append

/-- Every observer is told of a node that is built, in the order in which they asked. -/
theorem seen_created (l : Ledger) (n : Node) :
    (l.created n).seen = l.seen ++ l.observers.map fun o => (o, n) := by
  rw [seen, created, List.reverse_append, ← List.map_reverse, List.reverse_reverse, seen]

/-- Counting nodes does not change who is told of them. -/
theorem observers_createdAll (l : Ledger) (nodes : List Node) :
    (l.createdAll nodes).observers = l.observers := by
  induction nodes generalizing l with
  | nil => rfl
  | cons n rest ih => rw [createdAll_cons, ih, created]

/-- As many more nodes are counted as there are. -/
theorem built_createdAll (l : Ledger) (nodes : List Node) :
    (l.createdAll nodes).built = l.built + nodes.length := by
  induction nodes generalizing l with
  | nil => rfl
  | cons n rest ih =>
      have hbuilt : (l.created n).built = l.built + 1 := rfl
      rw [createdAll_cons, ih, hbuilt, List.length_cons]
      omega

/-- Every observer is told of every node. -/
theorem seen_createdAll (l : Ledger) (nodes : List Node) :
    (l.createdAll nodes).seen = l.seen ++ tidings l.observers nodes := by
  induction nodes generalizing l with
  | nil => exact (List.append_nil _).symm
  | cons n rest ih =>
      have hobservers : (l.created n).observers = l.observers := rfl
      rw [createdAll_cons, ih, seen_created, hobservers, tidings, tidings, List.flatMap_cons,
        List.append_assoc]

/-- While nodes are built and none is given up there are never more than after the last one. -/
theorem peak_createdAll (l : Ledger) (n : Node) (nodes : List Node) :
    (l.createdAll (n :: nodes)).peak = max l.peak (l.built + (nodes.length + 1) - l.freed) := by
  induction nodes generalizing l n with
  | nil => rfl
  | cons m rest ih =>
      rw [createdAll_cons, ih]
      simp only [created, List.length_cons]
      omega

/-- Between the two ledgers these nodes were built and told of; trees may have been given up. It is
what a part of a drive does to the ledger (`node_created` and `node_released`), and parts that
follow one another add up. -/
structure Builds (l : Ledger) (nodes : List Node) (l' : Ledger) : Prop where
  /-- The observers are the same. -/
  observers_eq : l'.observers = l.observers
  /-- They were told of these nodes. -/
  seen_eq : l'.seen = l.seen ++ tidings l.observers nodes
  /-- So many more nodes were built. -/
  built_eq : l'.built = l.built + nodes.length

namespace Builds

variable {l l' l'' : Ledger} {nodes nodes' : List Node}

/-- Where no node is built the ledger stays as it is. -/
theorem refl (l : Ledger) : l.Builds [] l := ⟨rfl, (List.append_nil _).symm, rfl⟩

/-- Nodes built in two steps are built in one. -/
theorem trans (h : l.Builds nodes l') (h' : l'.Builds nodes' l'') :
    l.Builds (nodes ++ nodes') l'' := by
  refine ⟨h'.observers_eq.trans h.observers_eq, ?_, ?_⟩
  · rw [h'.seen_eq, h.seen_eq, h.observers_eq, tidings, tidings, tidings, List.flatMap_append,
      List.append_assoc]
  · rw [h'.built_eq, h.built_eq, List.length_append, Nat.add_assoc]

/-- Nodes that are counted one by one are built in that order. -/
theorem createdAll (l : Ledger) (nodes : List Node) : l.Builds nodes (l.createdAll nodes) :=
  ⟨l.observers_createdAll nodes, l.seen_createdAll nodes, l.built_createdAll nodes⟩

/-- What is given up does not count. -/
theorem freed (h : l.Builds nodes l') (freed : Nat) : l.Builds nodes { l' with freed } :=
  ⟨h.observers_eq, h.seen_eq, h.built_eq⟩

end Builds

end Ledger

end MarkupRouting
