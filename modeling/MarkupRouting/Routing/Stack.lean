import MarkupRouting.Routing.Frame

/-!
# The stack of open elements

The frames of all open elements, with what belongs to the level above the root.

* **Stack** — the frames, the innermost one first.
* **Stack.path** — the path of the innermost open element.
* **Stack.enter**, **push** — the frame of an element that is entered; the stack with it on top.
* **Stack.leave?** — the innermost frame and the stack around it.
* **Fate**, **Stack.settle** — what becomes of the node of an element that was left.
-/

namespace MarkupRouting

/-- The frames of all open elements (`InterestTracker`). -/
structure Stack (H : Type) where
  /-- The frames, the innermost one first. -/
  frames : List (Frame H)
  /-- The rules that may select a root element or something below it. -/
  rootPending : List (Interest H)
  /-- How many root elements of each name there were. -/
  rootCounts : Table Nat
  deriving Repr, Inhabited

/-- What becomes of the node of an element that was left (`Disposition`). -/
inductive Fate where
  /-- There was none. -/
  | noNode
  /-- It became part of the parent's node. -/
  | retained
  /-- It was given up. -/
  | released
  deriving DecidableEq, Repr

/-- The name of a fate in records. -/
def Fate.name : Fate → String
  | noNode => "NO_NODE"
  | retained => "RETAINED"
  | released => "RELEASED"

/-- The path of an element with the given names from the root down to it. -/
def pathOf (names : List String) : String := "/" ++ String.intercalate "/" names

namespace Stack

variable {H : Type}

/-- The stack without frames for the rules of a book. -/
def ofBook (book : RuleBook H) : Stack H :=
  { frames := [], rootPending := book.interests, rootCounts := [] }

/-- How many elements are open (`InterestTracker.depth`). -/
def depth (st : Stack H) : Nat := st.frames.length

/-- The names of the open elements from the root down (`path_names`). -/
def names (st : Stack H) : List String := (st.frames.map Frame.name).reverse

/-- The path of the innermost open element (`current_path`). -/
def path (st : Stack H) : String := pathOf st.names

/-- Every open element has a name that is a text, so that there are paths. -/
def hasPath (st : Stack H) : Bool := st.frames.all (·.misnomer.isNone)

/-- Something that is no text is held back with the texts of the innermost open element. -/
def isSpoiled (st : Stack H) : Bool := st.frames.head?.any (·.spoiled)

/-- The rules that may select an element that is entered next. -/
def pending (st : Stack H) : List (Interest H) :=
  match st.frames with
  | [] => st.rootPending
  | parent :: _ => parent.pending

/-- The node of the innermost open element is built, so that whatever is inside it is built as
well. -/
def building (st : Stack H) : Bool :=
  match st.frames with
  | [] => false
  | parent :: _ => parent.materializing

/-- The mode that elements inside the innermost open one are given, where that one is built. -/
def inheritedMode (st : Stack H) : Option TextMode :=
  match st.frames with
  | [] => none
  | parent :: _ => if parent.materializing then some parent.mode else none

/-- The mode that does what the inherited one and those of all the given rules do; nothing where
there is none of them. -/
def joinModes (inherited : Option TextMode) (rules : List (Rule H)) : Option TextMode :=
  rules.foldl
    (fun mode r => some (match mode with
      | some m => m.join r.mode
      | none => r.mode))
    inherited

/-- The position of an element that is entered next, and the stack in which it is taken
(`next_position`). -/
def claimPosition (st : Stack H) (name : String) : Nat × Stack H :=
  match st.frames with
  | [] =>
    let (position, counts) := claim name st.rootCounts
    (position, { st with rootCounts := counts })
  | parent :: rest =>
    let (position, counts) := claim name parent.counts
    (position, { st with frames := { parent with counts := counts } :: rest })

/-- The frame of an element that is entered, and the stack in which its position is taken
(`InterestTracker.open`). -/
def enter (st : Stack H) (name : String) (attributes : Table Value) : Frame H × Stack H :=
  let matched := Interest.matched st.pending name
  let openRules := matched.filter (fun r => r.onOpen.isSome)
  let closeRules := matched.filter (fun r => r.onClose.isSome)
  let materializing := st.building || !closeRules.isEmpty
  let (position, around) := st.claimPosition name
  let path :=
    if materializing || !openRules.isEmpty then some (pathOf (st.names ++ [name])) else none
  ({ name
     attributes
     position
     depth := st.depth + 1
     pending := Interest.pendingBelow st.pending name
     openRules
     closeRules
     materializing
     mode := (joinModes st.inheritedMode closeRules).getD .keep
     path }, around)

/-- The stack with a frame on top. -/
def push (st : Stack H) (f : Frame H) : Stack H := { st with frames := f :: st.frames }

/-- The stack with a changed innermost frame. -/
def mapTop (st : Stack H) (g : Frame H → Frame H) : Stack H :=
  match st.frames with
  | [] => st
  | f :: rest => { st with frames := g f :: rest }

/-- The innermost frame and the stack around it, if an element is open (`InterestTracker.close`). -/
def leave? (st : Stack H) : Option (Frame H × Stack H) :=
  match st.frames with
  | [] => none
  | f :: rest => some (f, { st with frames := rest })

/-- The stack without its frames (`release_all`). -/
def cleared (st : Stack H) : Stack H := { st with frames := [] }

/-- What becomes of the node of an element that was left, in the stack around the element
(`LifecycleManager.settle`): it goes into the parent's node where that one is built, else it is
given up. -/
def settle (st : Stack H) (f : Frame H) (l : Ledger) :
    Except Frame.Flaw (Fate × Stack H × Ledger) :=
  match f.node? with
  | none => .ok (.noNode, st, l)
  | some n =>
    match st.frames with
    | parent :: rest =>
      if parent.materializing then
        match parent.adopt n with
        | .ok parent => .ok (.retained, { st with frames := parent :: rest }, l)
        | .error flaw => .error flaw
      else .ok (.released, st, l.released n)
    | [] => .ok (.released, st, l.released n)

end Stack

end MarkupRouting
