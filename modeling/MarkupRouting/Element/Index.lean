import MarkupRouting.Table

/-!
# Children by name

What a node keeps of its children beside its contents, so that they are found by name: the last
child of each name, and all children of each name. What a child is does not matter here.

* **Index** — the two tables; **Index.add** puts one child more into both.
* **Index.child?**, **childrenNamed**, **names** — what the tables say.
* **Index.listKey?** — keys that ask for all children of a name.
* **Index.item**, **get?**, **contains** — what a key asks for, one child or all of a name.
-/

namespace MarkupRouting

/-- What a key asks for: one child, or all children of a name. -/
inductive Found (α : Type) where
  /-- The last child of a name. -/
  | one (child : α)
  /-- All children of a name. -/
  | many (children : List α)
  deriving DecidableEq, Repr, Inhabited

/-- Children by name. -/
structure Index (α : Type) where
  /-- The last child of each name. -/
  last : Table α := []
  /-- All children of each name, the last one first. -/
  all : Table (List α) := []
  deriving Repr, Inhabited

namespace Index

variable {α ε : Type}

/-- The index with one child more (`_index_child`). -/
def add (x : Index α) (name : String) (child : α) : Index α :=
  { last := Table.put name child x.last
    all := Table.put name (child :: (x.all.get? name).getD []) x.all }

/-- The last child of the given name (`Node.child`). -/
def child? (x : Index α) (name : String) : Option α := x.last.get? name

/-- The children of the given name, in order (`children_named`). -/
def childrenNamed (x : Index α) (name : String) : List α := ((x.all.get? name).getD []).reverse

/-- The names of the children, each once, in the order in which they first come (`child_names`). -/
def names (x : Index α) : List String := x.all.keys

/-- The name in a key that asks for all children of one name, which ends in a pair of brackets. -/
def listKey? (key : String) : Option String :=
  match key.toList.reverse with
  | ']' :: '[' :: name => some (String.ofList name.reverse)
  | _ => none

/-- What the key asks for (`Node.__getitem__`); where a single child is not there, this is what is
said of it. -/
def item (x : Index α) (absent : String → ε) (key : String) : Except ε (Found α) :=
  match listKey? key with
  | some name => .ok (.many (x.childrenNamed name))
  | none =>
    match x.child? key with
    | some c => .ok (.one c)
    | none => .error (absent key)

/-- What the key asks for, if it is there at all (`Node.get`). -/
def get? (x : Index α) (key : String) : Option (Found α) :=
  match listKey? key with
  | some name =>
    let found := x.childrenNamed name
    if found.isEmpty then none else some (.many found)
  | none => (x.child? key).map .one

/-- There is a child of the given name (`Node.__contains__`). -/
def contains (x : Index α) (key : String) : Bool := (x.child? key).isSome

end Index

end MarkupRouting
