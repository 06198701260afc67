import MarkupRouting.Routing.Fault

/-!
# What handlers do

A handler is called with what is known of an element and does a number of things in turn: it looks
at the element, changes it, asks for the drive to be stopped, asks something of the dispatcher it
runs under. What it does next may depend on what it saw. It keeps a state of its own, which it hands
on when it returns.

A handler that is given a node may make any other node of it: with another name, path or place, with
things taken out or put in, with other things inside its children. What it cannot do is to put a
node inside itself, or to change a node that it was given in an earlier call: nodes are trees, and
each call has its own.

* **Opening**, **Subject** — what a handler is given: a notice of an element that is entered, the
  node of one that is left.
* **Call** — one call of a handler.
* **Action** — what a handler does from some point on; **Behavior** is what each call leads to.
* **refusal** — why a dispatcher does not grant a request.
* **Turn**, **Action.run** — what a call changes.
-/

namespace MarkupRouting

/-- The notice of an element that is entered (`ElementInfo`). -/
structure Opening where
  /-- The name of the element. -/
  name : String
  /-- The names from the root to the element, each behind a separator. -/
  path : String
  /-- The attributes in order. -/
  attributes : Table Value
  /-- The element's place among the elements of its name under the same parent, from one. -/
  position : Nat
  /-- How many elements are open, this one included. -/
  depth : Nat
  deriving Repr, Inhabited

/-- The notice as named values; the place of the element is left out. -/
def Opening.toTable (o : Opening) : Table Value :=
  [("name", .text o.name), ("path", .text o.path), ("depth", .int o.depth),
    ("attributes", .ofPairs o.attributes)]

/-- What a handler is given. -/
inductive Subject where
  /-- The notice of an element that is entered. -/
  | opening (o : Opening)
  /-- The node of an element that is left. -/
  | closing (n : Node)
  deriving Repr, Inhabited

namespace Subject

/-- The attributes of the element. -/
def attributes : Subject → Table Value
  | opening o => o.attributes
  | closing n => n.tag.attributes

/-- The place of the element. -/
def position : Subject → Value
  | opening o => .int o.position
  | closing n => n.tag.position

/-- The node of an element that is left. -/
def node? : Subject → Option Node
  | opening _ => none
  | closing n => some n

end Subject

/-- One call of a handler. -/
structure Call (H : Type) where
  /-- The handler that is called. -/
  handler : H
  /-- When it is called. -/
  phase : Phase
  /-- The rule that selected the element. -/
  rule : Rule H
  /-- The path of the element. -/
  path : String
  /-- How many elements are open, the element included. -/
  depth : Nat
  /-- The identity of the run. -/
  correlation : Value
  /-- How many nodes were built and not given up when the call was made. -/
  live : Int
  /-- What the handler is given. -/
  subject : Subject
  deriving Repr

/-- The call as named values: when and where it is made. -/
def Call.toTable {H : Type} (c : Call H) : Table Value :=
  [("phase", .text c.phase.name), ("pattern", .text c.rule.pattern.source), ("path", .text c.path),
    ("depth", .int c.depth), ("position", c.subject.position)]

/-- What a handler does from some point on. -/
inductive Action (σ : Type) where
  /-- Returns, leaving a state. -/
  | finish (w : σ)
  /-- Fails, leaving a state. -/
  | raise (fault : Fault) (w : σ)
  /-- Asks for the drive to be stopped when the handler has returned. -/
  | stop (next : Action σ)
  /-- Sets an attribute of the element. -/
  | setAttribute (name : String) (value : Value) (next : Action σ)
  /-- Puts a text or an element at the end of the node. -/
  | append (c : Content) (next : Action σ)
  /-- Makes another node of the node, with a name, a path, attributes, a position, a mode and
  contents of its own. -/
  | remake (n : Node) (next : Action σ)
  /-- Looks at the element as it is now, and at whether the drive is going to stop. -/
  | look (next : Subject → Bool → Action σ)
  /-- Asks something of the dispatcher, and goes on with the refusal. -/
  | ask (request : Request) (next : Option Fault → Action σ)
  /-- Has records made by what it does elsewhere. -/
  | note (records : List Log.Record) (next : Action σ)

/-- What each call leads to, given the state that earlier calls left. -/
abbrev Behavior (H σ : Type) := Call H → σ → Action σ

/-- Why a dispatcher does not grant a request: a dispatcher that is driving grants none. -/
def refusal (driving : Bool) (request : Request) : Option Fault :=
  if driving then some (.reentrant request) else none

/-- What a call may change (`HandlerContext`). -/
structure Turn (H : Type) where
  /-- The frame of the element. -/
  frame : Frame H
  /-- When the handler was called. -/
  phase : Phase
  /-- The path of the element at which the drive was asked to stop. -/
  stopPath : Option String
  /-- The dispatcher is driving. -/
  driving : Bool
  /-- The identity of the run. -/
  correlation : Value
  /-- The records made, the last one first. -/
  records : List Log.Record
  deriving Repr

/-- The record of what a drive does. -/
def driveRecord (correlation : Value) (level : Log.Level) (message : String)
    (details : List (String × Log.Detail)) : Log.Record :=
  (Log.Logger.ofPart "drive" correlation).record level message details

namespace Turn

variable {H : Type}

/-- The path of the element. -/
def path (t : Turn H) : String := t.frame.path.getD ""

/-- What a handler sees of the element. -/
def subject (t : Turn H) : Subject :=
  match t.phase with
  | .opening => .opening
    { name := t.frame.name, path := t.path, attributes := t.frame.attributes,
      position := t.frame.position, depth := t.frame.depth }
  | .closing => .closing ⟨t.frame.nodeTag, (t.frame.contents.getD []).reverse⟩

/-- The turn with the drive asked to stop (`HandlerContext.stop`); what counts is where that was
asked first. -/
def stop (t : Turn H) : Turn H :=
  match t.stopPath with
  | some _ => t
  | none =>
    { t with
      stopPath := some t.path
      records := driveRecord t.correlation .info "Stop requested by handler"
        [("path", .value (.text t.path))] :: t.records }

/-- What is known of an element with an attribute set. -/
def withAttribute (name : String) (value : Value) (tag : Tag) : Tag :=
  { tag with attributes := tag.attributes.put name value }

/-- The turn with an attribute set, which later handlers and the node have as well. -/
def setAttribute (t : Turn H) (name : String) (value : Value) : Turn H :=
  { t with frame := { t.frame with
    attributes := t.frame.attributes.put name value
    remade := t.frame.remade.map (withAttribute name value) } }

/-- What stands in a node with one thing more, the last thing first; an empty text is not kept. -/
def withContent (contents : List Content) : Content → List Content
  | .text s => Frame.withText contents s
  | c => c :: contents

/-- The turn with one thing more at the end of the node; nothing happens while there is no node to
be handed over. -/
def append (t : Turn H) (c : Content) : Turn H :=
  match t.phase with
  | .opening => t
  | .closing =>
    { t with frame := { t.frame with contents := t.frame.contents.map (withContent · c) } }

/-- The turn with another node in place of the node; nothing happens while there is no node to be
handed over. The element keeps its name and its path in messages and records. -/
def remake (t : Turn H) (n : Node) : Turn H :=
  match t.phase with
  | .opening => t
  | .closing =>
    { t with frame := { t.frame with
      contents := t.frame.contents.map fun _ => n.contents.reverse
      remade := some n.tag } }

end Turn

/-- Does what a handler does: the turn in the end, the state left, and the fault it failed with. -/
def Action.run {H σ : Type} : Action σ → Turn H → Turn H × σ × Option Fault
  | finish w, t => (t, w, none)
  | raise fault w, t => (t, w, some fault)
  | stop next, t => next.run t.stop
  | setAttribute name value next, t => next.run (t.setAttribute name value)
  | append c next, t => next.run (t.append c)
  | remake n next, t => next.run (t.remake n)
  | look next, t => (next t.subject t.stopPath.isSome).run t
  | ask request next, t => (next (refusal t.driving request)).run t
  | note records next, t => next.run { t with records := records.reverse ++ t.records }

end MarkupRouting
