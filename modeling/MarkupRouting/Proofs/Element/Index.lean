import Mathlib.Tactic
import MarkupRouting.Element.Grove
import MarkupRouting.Proofs.Lists
import MarkupRouting.Proofs.Tables

/-!
# The index and the contents

A node keeps its children three times: among its contents, by name, and by name with all of a name.
The index is filled in two places, when the node is made and when a child is added. After every
history it answers as the contents do.

* **Index.Agrees** — what the index says of the children; **Agrees.add** and **Agrees.addAll** are
  for one child more and for many.
* **Index.item_list**, **item_of_child?** — the two kinds of keys.
* **Cell.addAll** — a history of additions; those that are refused leave the node as it is.
* **Cell.index_answers** — what a node answers after a history.
* **Grove.Sound** — the same of all nodes together, which may stand inside each other and are added
  to in any order; **Sound.after**, **Grove.index_agrees_after** — after a history of all of them.
-/

namespace MarkupRouting

namespace Index

variable {α ε : Type} {x : Index α} {nameOf : α → String} {children : List α}

/-! ### Children -/

/-- One child more is one more among those of its name and leaves the others alone
(`_index_child`). -/
theorem childrenNamed_add (x : Index α) (name other : String) (c : α) :
    (x.add name c).childrenNamed other =
      if other = name then x.childrenNamed other ++ [c] else x.childrenNamed other := by
  rw [childrenNamed, add, Table.get?_put]
  split_ifs with h
  · rw [h, Option.getD_some, List.reverse_cons, childrenNamed]
  · rfl

/-- The child that stands for a name is the last one of that name (`child`), so the one just
added. -/
theorem child?_add (x : Index α) (name other : String) (c : α) :
    (x.add name c).child? other = if other = name then some c else x.child? other :=
  Table.get?_put name other c x.last

/-- The names of children stand in the order in which they first came, each of them once. -/
theorem names_add (x : Index α) (name : String) (c : α) :
    (x.add name c).names = if name ∈ x.names then x.names else x.names ++ [name] :=
  Table.keys_put name _ x.all

/-- The index says of the children, which have these names, what a look at all of them would say.
The names are given apart, since in a grove a child is a number whose name has to be looked up. This
is what `_index_child` keeps when a child comes, and what `child`, `children_named` and
`child_names` rely on. -/
structure Agrees (x : Index α) (nameOf : α → String) (children : List α) : Prop where
  /-- The children of a name are those among all children, in their order. -/
  named : ∀ name, x.childrenNamed name = children.filter fun c => nameOf c = name
  /-- The child of a name is the last one of them. -/
  last : ∀ name, x.child? name = (children.filter fun c => nameOf c = name).getLast?
  /-- Every name stands where it first came. -/
  names : x.names = (children.map nameOf).eraseDups

/-- There are no children at first. -/
theorem agrees_empty (nameOf : α → String) : ({} : Index α).Agrees nameOf [] :=
  ⟨fun _ => rfl, fun _ => rfl, rfl⟩

namespace Agrees

/-- A child more is put behind those of its name. -/
theorem add (h : x.Agrees nameOf children) (c : α) :
    (x.add (nameOf c) c).Agrees nameOf (children ++ [c]) where
  named name := by
    rw [childrenNamed_add, h.named, List.filter_append]
    by_cases hname : nameOf c = name
    · simp [hname]
    · simp [hname, Ne.symm hname]
  last name := by
    rw [child?_add, h.last, List.filter_append]
    by_cases hname : nameOf c = name
    · simp [hname]
    · simp [hname, Ne.symm hname]
  names := by
    rw [names_add, h.names, List.map_append, List.map_singleton, eraseDups_concat]
    simp only [List.mem_eraseDups]

/-- Children are put into the index one after the other. -/
theorem addAll (h : x.Agrees nameOf children) (more : List α) :
    (more.foldl (fun x c => x.add (nameOf c) c) x).Agrees nameOf (children ++ more) := by
  induction more generalizing x children with
  | nil => rwa [List.append_nil]
  | cons c rest ih =>
      rw [List.append_cons]
      exact ih (h.add c)

/-- There is a child of a name where one of the children has it. -/
theorem contains_iff (h : x.Agrees nameOf children) (key : String) :
    x.contains key = true ↔ ∃ c ∈ children, nameOf c = key := by
  rw [contains, h.last, List.getLast?_isSome]
  simp [List.filter_eq_nil_iff]

/-- Only the names of the children themselves matter. -/
theorem congr {nameOf' : α → String} (h : x.Agrees nameOf children)
    (hsame : ∀ c ∈ children, nameOf' c = nameOf c) : x.Agrees nameOf' children := by
  have hfilter : ∀ name, (children.filter fun c => nameOf' c = name) =
      children.filter fun c => nameOf c = name := fun name =>
    List.filter_congr fun c hc => by rw [hsame c hc]
  constructor
  · intro name
    rw [hfilter, h.named]
  · intro name
    rw [hfilter, h.last]
  · rw [h.names, List.map_congr_left hsame]

end Agrees

/-! ### Keys -/

/-- A name with a pair of brackets behind it asks for all children of the name. -/
theorem listKey?_list (name : String) : listKey? (name ++ "[]") = some name := by
  simp [listKey?]

/-- A key without them asks for one child. -/
theorem listKey?_eq_none {key : String} (h : ¬ "[]".toList <:+ key.toList) :
    listKey? key = none := by
  unfold listKey?
  split
  · next name hkey =>
      refine absurd ⟨name.reverse, ?_⟩ h
      rw [← List.reverse_inj, hkey]
      simp
  · rfl

/-- A key in brackets asks for all children of a name, and is never refused, be there none of them
(`__getitem__`). -/
theorem item_list (x : Index α) (absent : String → ε) (name : String) :
    x.item absent (name ++ "[]") = .ok (.many (x.childrenNamed name)) := by
  rw [item, listKey?_list]

/-- Asked for with `get`, a key in brackets is answered only where there is a child of that name. -/
theorem get?_list (x : Index α) (name : String) :
    x.get? (name ++ "[]") =
      if x.childrenNamed name = [] then none else some (.many (x.childrenNamed name)) := by
  simp [get?, listKey?_list]

variable {key : String} {absent : String → ε}

/-- Any other key asks for the one child of that name; `node[key]` and `get` answer alike where it
is there. -/
theorem item_of_child? {c : α} (h : ¬ "[]".toList <:+ key.toList) (hc : x.child? key = some c) :
    x.item absent key = .ok (.one c) ∧ x.get? key = some (.one c) := by
  rw [item, get?, listKey?_eq_none h, hc]
  exact ⟨rfl, rfl⟩

/-- Where it is not there `node[key]` refuses the key and `get` answers nothing. -/
theorem item_of_not_child? (h : ¬ "[]".toList <:+ key.toList) (hc : x.child? key = none) :
    x.item absent key = .error (absent key) ∧ x.get? key = none := by
  rw [item, get?, listKey?_eq_none h, hc]
  exact ⟨rfl, rfl⟩

/-- A single child is there for the key exactly where a child of that name is. -/
theorem item_isOk_iff (h : ¬ "[]".toList <:+ key.toList) :
    (∃ found, x.item absent key = .ok found) ↔ x.contains key = true := by
  rw [contains]
  cases hc : x.child? key with
  | none => simp [item_of_not_child? h hc]
  | some c => simp [item_of_child? h hc]

end Index

namespace Grove

/-! ### One node -/

/-- What an addition leaves at the end of a node. -/
def Addition.piece? : Addition → Option Piece
  | text s => if s.isEmpty then none else some (.text s)
  | node number => some (.node number)
  | other => none

/-- No addition leaves an empty text. -/
theorem Addition.piece?_ne_empty (a : Addition) : a.piece? ≠ some (.text "") := by
  cases a with
  | text s =>
      rw [Addition.piece?]
      split_ifs with hempty
      · exact nofun
      · intro h
        obtain rfl := Piece.text.inj (Option.some.inj h)
        exact hempty rfl
  | node number => exact nofun
  | other => exact nofun

/-- The only child that an addition leaves is the node that is added. -/
theorem Addition.eq_node_of_mem {a : Addition} {c : Nat}
    (h : c ∈ a.piece?.toList.filterMap Piece.number?) : a = .node c := by
  cases a with
  | text s =>
      rw [Addition.piece?] at h
      split_ifs at h
      · cases h
      · cases h
  | node number =>
      obtain rfl := List.mem_singleton.mp h
      rfl
  | other => cases h

namespace Cell

variable {nameOf : Nat → String} {cell : Cell}

/-- The node after a caller tried to add something to it: where that is refused, as it was. -/
def added (nameOf : Nat → String) (cell : Cell) (a : Addition) : Cell :=
  (cell.add nameOf a).toOption.getD cell

/-- The node after a caller tried to add many things to it, one after the other. -/
def addAll (nameOf : Nat → String) (cell : Cell) (additions : List Addition) : Cell :=
  additions.foldl (added nameOf) cell

/-- The node that is made knows its children. -/
theorem make_agrees (nameOf : Nat → String) (tag : Tag) (pieces : List Piece) :
    (make nameOf tag pieces).index.Agrees nameOf (make nameOf tag pieces).children :=
  (Index.agrees_empty nameOf).addAll (pieces.filterMap Piece.number?)

/-- What is kept of an addition stands at the end; nothing else of the node changes but its
index. -/
theorem added_eq (nameOf : Nat → String) (cell : Cell) (a : Addition) :
    (cell.added nameOf a).tag = cell.tag ∧
      (cell.added nameOf a).pieces = cell.pieces ++ a.piece?.toList := by
  cases a with
  | text s =>
      simp only [added, add, appendText, Addition.piece?, Except.toOption, Option.getD_some]
      split_ifs with hempty
      · exact ⟨rfl, (List.append_nil _).symm⟩
      · exact ⟨rfl, rfl⟩
  | node number => exact ⟨rfl, rfl⟩
  | other => exact ⟨rfl, (List.append_nil _).symm⟩

/-- After an addition the node still knows its children. -/
theorem added_agrees (h : cell.index.Agrees nameOf cell.children) (a : Addition) :
    (cell.added nameOf a).index.Agrees nameOf (cell.added nameOf a).children := by
  cases a with
  | text s =>
      simp only [added, add, appendText, Except.toOption, Option.getD_some]
      split_ifs with hempty
      · exact h
      · -- a text is no child
        have hchildren : (cell.pieces ++ [Piece.text s]).filterMap Piece.number? =
            cell.children := by
          rw [List.filterMap_append]
          exact List.append_nil _
        rw [children, hchildren]
        exact h
  | node number =>
      have hchildren : (cell.pieces ++ [Piece.node number]).filterMap Piece.number? =
          cell.children ++ [number] := List.filterMap_append
      simp only [added, add, appendNode, Except.toOption, Option.getD_some]
      rw [children, hchildren]
      exact h.add number
  | other => exact h

/-- A history of additions leaves what is kept of each, in order. -/
theorem addAll_eq (nameOf : Nat → String) (cell : Cell) (additions : List Addition) :
    (cell.addAll nameOf additions).tag = cell.tag ∧
      (cell.addAll nameOf additions).pieces =
        cell.pieces ++ additions.filterMap Addition.piece? := by
  induction additions generalizing cell with
  | nil => exact ⟨rfl, (List.append_nil _).symm⟩
  | cons a rest ih =>
      obtain ⟨htag, hpieces⟩ := ih (cell.added nameOf a)
      obtain ⟨htagOne, hpiecesOne⟩ := added_eq nameOf cell a
      refine ⟨htag.trans htagOne, ?_⟩
      rw [addAll, List.foldl_cons, ← addAll, hpieces, hpiecesOne, List.append_assoc]
      cases ha : a.piece? with
      | none => rw [List.filterMap_cons_none ha]; rfl
      | some piece => rw [List.filterMap_cons_some ha]; rfl

/-- After a history of additions the node still knows its children. -/
theorem addAll_agrees (h : cell.index.Agrees nameOf cell.children) (additions : List Addition) :
    (cell.addAll nameOf additions).index.Agrees nameOf
      (cell.addAll nameOf additions).children := by
  induction additions generalizing cell with
  | nil => exact h
  | cons a rest ih => exact ih (added_agrees h a)

/-- **The index agrees with the contents** (`append_child` and `Node.__getitem__`). Whatever a node
was made with and whatever a caller then tried to add to it, its contents are what it was made with
and what was kept of each addition, in order, an empty text never. The children of a name are those
among the contents, the child of a name is the last one of them, and the names stand in the order in
which they first came. A key with a pair of brackets asks for all children of a name, and is
answered only where there are some if they need not be there; any other key asks for the last child
of the name, which is there exactly where one of the children has it. -/
theorem index_answers (nameOf : Nat → String) (tag : Tag) (given : List Piece)
    (additions : List Addition) :
    let cell := (make nameOf tag given).addAll nameOf additions
    (cell.pieces = given ++ additions.filterMap Addition.piece? ∧
      cell.pieces.count (.text "") = given.count (.text "")) ∧
    (∀ name, cell.childrenNamed name = (cell.children.filter fun c => nameOf c = name) ∧
      cell.child? name = (cell.children.filter fun c => nameOf c = name).getLast? ∧
      cell.item (name ++ "[]") = .ok (.many (cell.childrenNamed name)) ∧
      cell.get? (name ++ "[]") =
        if cell.childrenNamed name = [] then none else some (.many (cell.childrenNamed name))) ∧
    cell.childNames = (cell.children.map nameOf).eraseDups ∧
    ∀ key, ¬ "[]".toList <:+ key.toList →
      (cell.contains key = true ↔ ∃ c ∈ cell.children, nameOf c = key) ∧
      ((∃ found, cell.item key = .ok found) ↔ ∃ c ∈ cell.children, nameOf c = key) ∧
      (∀ c, cell.child? key = some c →
        cell.item key = .ok (.one c) ∧ cell.get? key = some (.one c)) ∧
      (cell.child? key = none →
        cell.item key = .error (.noChild tag.path key) ∧ cell.get? key = none) := by
  intro cell
  have hagrees : cell.index.Agrees nameOf cell.children :=
    addAll_agrees (make_agrees nameOf tag given) additions
  obtain ⟨htag, hpieces⟩ := addAll_eq nameOf (make nameOf tag given) additions
  have hpath : cell.tag.path = tag.path := congrArg Tag.path htag
  refine ⟨⟨hpieces, ?_⟩, fun name => ⟨hagrees.named name, hagrees.last name,
    cell.index.item_list _ name, cell.index.get?_list name⟩, hagrees.names, fun key hkey =>
    ⟨hagrees.contains_iff key, ?_, fun c hc => Index.item_of_child? hkey hc, fun hc => ?_⟩⟩
  · have hnone : (additions.filterMap Addition.piece?).count (.text "") = 0 := by
      rw [List.count_eq_zero, List.mem_filterMap]
      rintro ⟨a, -, ha⟩
      exact a.piece?_ne_empty ha
    rw [hpieces, List.count_append, hnone, Nat.add_zero, make]
  · rw [← hagrees.contains_iff key]
    exact Index.item_isOk_iff hkey
  · rw [← hpath]
    exact Index.item_of_not_child? hkey hc

/-- A node made with one child, to which the same child and another one of its name are added. -/
theorem index_answers_shelf :
    let nameOf : Nat → String := fun _ => "book"
    let shelf : Tag := { (default : Tag) with name := "shelf", path := "/shelf" }
    let cell := (make nameOf shelf [.node 7]).addAll nameOf [.node 7, .other, .text "", .node 8]
    cell.child? "book" = some 8 ∧ cell.item "book" = .ok (.one 8) ∧
      cell.child? "lamp" = none ∧ cell.item "lamp" = .error (.noChild "/shelf" "lamp") := by
  intro nameOf shelf cell
  obtain ⟨-, -, -, hkeys⟩ :=
    index_answers nameOf shelf [.node 7] [.node 7, .other, .text "", .node 8]
  obtain ⟨-, -, hbook, -⟩ := hkeys "book" (by decide)
  obtain ⟨-, -, -, hlamp⟩ := hkeys "lamp" (by decide)
  have hlast : cell.child? "book" = some 8 := by decide
  have hnone : cell.child? "lamp" = none := by decide
  exact ⟨hlast, (hbook 8 hlast).1, hnone, (hlamp hnone).1⟩

end Cell

/-! ### Steps that may be refused -/

section Refused

variable {ε ε' α β : Type}

/-- Where a second step came about, the first one did. -/
theorem ok_of_bind {x : Except ε α} {f : α → Except ε β} {b : β} (h : (x >>= f) = .ok b) :
    ∃ a, x = .ok a ∧ f a = .ok b := by
  cases x with
  | error e => cases h
  | ok a => exact ⟨a, rfl, h⟩

/-- What is mapped and succeeded did succeed before. -/
theorem ok_of_map {x : Except ε α} {f : α → β} {b : β} (h : x.map f = .ok b) :
    ∃ a, x = .ok a ∧ f a = b := by
  cases x with
  | error e => cases h
  | ok a => exact ⟨a, rfl, Except.ok.inj h⟩

/-- What is refused for another reason is refused as before: success does not come from renaming the
reason. -/
theorem ok_of_mapError {x : Except ε α} {f : ε → ε'} {a : α} (h : x.mapError f = .ok a) :
    x = .ok a := by
  cases x with
  | error e => cases h
  | ok b => exact congrArg Except.ok (Except.ok.inj h)

end Refused

/-! ### All nodes -/

variable {g g' : Grove}

/-- Labels and contents name nodes that are there, and every node knows its children. This is the
invariant of groves: it holds of the empty one, and no deed breaks it, not even one that is
refused. -/
structure Sound (g : Grove) : Prop where
  /-- There is a node under every label. -/
  labelled : ∀ label number, g.number label = .ok number → number < g.cells.length
  /-- There is a node for every child. -/
  inside : ∀ cell ∈ g.cells, ∀ c ∈ cell.children, c < g.cells.length
  /-- Every index agrees with the contents. -/
  agrees : ∀ cell ∈ g.cells, cell.index.Agrees g.nameOf cell.children

/-- Where there are no nodes there is nothing to be wrong about. -/
theorem sound_empty : empty.Sound where
  labelled _ _ h := by cases h
  inside _ h := by cases h
  agrees _ h := by cases h

/-- A label names a node where it is in the table. -/
theorem number_eq_ok_iff {label : String} {number : Nat} :
    g.number label = .ok number ↔ g.labels.get? label = some number := by
  rw [Grove.number]
  split <;> simp_all

/-- The node under a label is the one with its number. -/
theorem cell_of_number {label : String} {number : Nat} (hnumber : g.number label = .ok number)
    {cell : Cell} (hcell : g.cell label = .ok cell) : g.cells[number]? = some cell := by
  obtain ⟨number', hnumber', hcell⟩ := ok_of_bind hcell
  obtain rfl := Except.ok.inj (hnumber.symm.trans hnumber')
  split at hcell
  · next found hfound => rw [hfound, Except.ok.inj hcell]
  · cases hcell

/-- Adding to a node names no other one. -/
theorem nameOf_set {number : Nat} {cell cell' : Cell} (hcell : g.cells[number]? = some cell)
    (htag : cell'.tag = cell.tag) :
    nameOf { g with cells := g.cells.set number cell' } = g.nameOf := by
  funext other
  have hlt : number < g.cells.length := (List.getElem?_eq_some_iff.mp hcell).1
  simp only [nameOf, List.getElem?_set, hlt, if_true]
  split_ifs with hother
  · rw [← hother, hcell, Option.map_some, Option.map_some, htag]
  · rfl

namespace Sound

/-- Pieces for contents name nodes that are there. -/
theorem of_pieces (h : g.Sound) {contents : List (String ⊕ String)} {pieces : List Piece}
    (hpieces : g.pieces contents = .ok pieces) :
    ∀ c ∈ pieces.filterMap Piece.number?, c < g.cells.length := by
  induction contents generalizing pieces with
  | nil =>
      obtain rfl := Except.ok.inj hpieces
      exact nofun
  | cons content rest ih =>
      rw [Grove.pieces, List.mapM_cons, ← Grove.pieces] at hpieces
      obtain ⟨piece, hpiece, hpieces⟩ := ok_of_bind hpieces
      obtain ⟨more, hmore, hpieces⟩ := ok_of_bind hpieces
      obtain rfl := Except.ok.inj hpieces
      cases content with
      | inl s =>
          obtain rfl := Except.ok.inj hpiece
          exact fun c hc => ih hmore c hc
      | inr label =>
          obtain ⟨number, hnumber, rfl⟩ := ok_of_map hpiece
          exact List.forall_mem_cons.mpr ⟨h.labelled label number hnumber, ih hmore⟩

/-- A new node knows the children it was made with, and no other one has changed. -/
theorem of_plant (h : g.Sound) {label name path : String} {attributes : Table Value}
    {position : Value} {mode : TextMode} {contents : List (String ⊕ String)}
    (hplant : g.plant label name path attributes position mode contents = .ok g') : g'.Sound := by
  rw [plant] at hplant
  obtain ⟨pieces, hpieces, hplant⟩ := ok_of_bind hplant
  obtain ⟨node, -, hplant⟩ := ok_of_bind hplant
  obtain rfl := Except.ok.inj hplant
  have hnames : ∀ c, c < g.cells.length →
      nameOf ⟨g.cells ++ [Cell.make g.nameOf node.tag pieces],
        g.labels.put label g.cells.length⟩ c = g.nameOf c := by
    intro c hc
    simp only [nameOf, List.getElem?_append_left hc]
  constructor
  · intro other number hnumber
    rw [number_eq_ok_iff, Table.get?_put] at hnumber
    rw [List.length_append, List.length_singleton]
    split_ifs at hnumber
    · obtain rfl := Option.some.inj hnumber
      exact Nat.lt_succ_self _
    · exact Nat.lt_succ_of_lt (h.labelled other number (number_eq_ok_iff.mpr hnumber))
  · intro cell hcell c hc
    rw [List.length_append, List.length_singleton]
    rcases List.mem_append.mp hcell with hold | hnew
    · exact Nat.lt_succ_of_lt (h.inside cell hold c hc)
    · obtain rfl := List.mem_singleton.mp hnew
      exact Nat.lt_succ_of_lt (h.of_pieces hpieces c hc)
  · intro cell hcell
    rcases List.mem_append.mp hcell with hold | hnew
    · exact (h.agrees cell hold).congr fun c hc => hnames c (h.inside cell hold c hc)
    · obtain rfl := List.mem_singleton.mp hnew
      exact (Cell.make_agrees g.nameOf node.tag pieces).congr fun c hc =>
        hnames c (h.of_pieces hpieces c hc)

/-- What is added to a node is put into its index, and no other node has changed. -/
theorem of_add (h : g.Sound) {label : String} {a : Addition}
    (ha : ∀ c, a = .node c → c < g.cells.length) (hadd : g.add label a = .ok g') : g'.Sound := by
  rw [Grove.add] at hadd
  obtain ⟨number, hnumber, hadd⟩ := ok_of_bind hadd
  obtain ⟨cell, hcell, hadd⟩ := ok_of_bind hadd
  obtain ⟨cell', hcell', hadd⟩ := ok_of_bind hadd
  obtain rfl := Except.ok.inj hadd
  have hmem : cell ∈ g.cells := List.mem_of_getElem? (cell_of_number hnumber hcell)
  have hadded : cell.added g.nameOf a = cell' := by
    rw [Cell.added, ok_of_mapError hcell']
    rfl
  obtain ⟨htag, hpieces⟩ := Cell.added_eq g.nameOf cell a
  have hagrees := Cell.added_agrees (h.agrees cell hmem) a
  rw [hadded] at htag hpieces hagrees
  have hnames := nameOf_set (cell_of_number hnumber hcell) htag
  constructor
  · intro other number hnumber
    rw [List.length_set]
    exact h.labelled other number hnumber
  · intro found hfound c hc
    rw [List.length_set]
    rcases List.mem_or_eq_of_mem_set hfound with hold | rfl
    · exact h.inside found hold c hc
    · rw [Cell.children, hpieces, List.filterMap_append, List.mem_append] at hc
      rcases hc with hold | hnew
      · exact h.inside cell hmem c hold
      · exact ha c (Addition.eq_node_of_mem hnew)
  · intro found hfound
    rw [hnames]
    rcases List.mem_or_eq_of_mem_set hfound with hold | rfl
    · exact h.agrees found hold
    · exact hagrees

end Sound

/-! ### Histories of all nodes -/

/-- What a caller does to a grove: make a node with contents, or add a text or a node to one that is
there. Every node can be put anywhere, more than once and also into itself, as callers of
`append_child` can. -/
inductive Deed where
  /-- A node is made under a label. -/
  | plant (label name path : String) (attributes : Table Value) (position : Value) (mode : TextMode)
      (contents : List (String ⊕ String))
  /-- A text is added to the node under a label. -/
  | text (label s : String)
  /-- The node under a label is added to the node under another one. -/
  | node (label child : String)
  /-- Something that is no node is added as a child to the node under a label. -/
  | other (label : String)

/-- The grove after a deed, unless that is refused. -/
def perform (g : Grove) : Deed → Except Flaw Grove
  | .plant label name path attributes position mode contents =>
    g.plant label name path attributes position mode contents
  | .text label s => g.appendText label s
  | .node label child => g.appendNode label child
  | .other label => g.add label .other

/-- The grove after several deeds; those that are refused leave it as it is. -/
def after (g : Grove) (deeds : List Deed) : Grove :=
  deeds.foldl (fun g deed => (g.perform deed).toOption.getD g) g

namespace Sound

/-- Whatever is done, every node still knows its children. -/
theorem perform (h : g.Sound) {deed : Deed} (hdone : g.perform deed = .ok g') : g'.Sound := by
  cases deed with
  | plant label name path attributes position mode contents => exact h.of_plant hdone
  | text label s => exact h.of_add (by simp) hdone
  | node label child =>
      obtain ⟨number, hnumber, hadd⟩ := ok_of_bind hdone
      refine h.of_add (fun c hc => ?_) hadd
      obtain rfl := Addition.node.inj hc
      exact h.labelled child number hnumber
  | other label => exact h.of_add (by simp) hdone

/-- What every single deed keeps, a whole history keeps, whichever of its deeds are refused. -/
theorem after (h : g.Sound) (deeds : List Deed) : (g.after deeds).Sound := by
  induction deeds generalizing g with
  | nil => exact h
  | cons deed rest ih =>
      rw [Grove.after, List.foldl_cons]
      cases hdone : g.perform deed with
      | error flaw => exact ih h
      | ok g' => exact ih (h.perform hdone)

end Sound

/-- Of nodes that stand inside each other and are added to in any order, each still knows its
children. -/
theorem index_agrees_after (deeds : List Deed) {label : String} {cell : Cell}
    (hcell : (empty.after deeds).cell label = .ok cell) :
    cell.index.Agrees (empty.after deeds).nameOf cell.children := by
  obtain ⟨number, hnumber, -⟩ := ok_of_bind hcell
  exact (sound_empty.after deeds).agrees cell
    (List.mem_of_getElem? (cell_of_number hnumber hcell))

end Grove

end MarkupRouting
