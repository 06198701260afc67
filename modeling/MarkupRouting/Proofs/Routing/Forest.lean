import Mathlib.Tactic
import MarkupRouting.Routing.Session

/-!
# Whole documents

What is done for a document, read off the document as a whole: which handlers are called for which
of its elements, in which order, and what they are given. Nothing here knows of stacks, of positions
in patterns or of texts that are held back.

* **Forest** — what stands in a row inside an element, or in a whole document.
* **Forest.events** — the document as a sequence of events.
* **RuleBook.modeAt**, **Forest.contents**, **RuleBook.node** — the text mode of an element; what
  stands in its node; the node.
* **Visit** — a call of a handler, without what only the drive knows of; **Visit.place** leaves out
  what handlers can change.
* **Forest.visits** — all calls that are made for a document.
-/

namespace MarkupRouting

variable {H : Type}

/-- What stands in a row inside an element: texts and elements, each with what follows it. A
document is a row; this is the whole of it at once, which a drive never sees. -/
inductive Forest where
  /-- Nothing more. -/
  | done
  /-- A text. -/
  | text (s : String) (rest : Forest)
  /-- An element with what stands inside it. -/
  | element (name : String) (attributes : Table Value) (inside rest : Forest)
  deriving Repr, Inhabited

namespace Forest

/-- The events of a document, where it stands inside `depth` open elements: one for a text, and for
an element one when it is entered, those of what is inside it, and one when it is left. -/
def events (depth : Nat) : Forest → List Event
  | done => []
  | text s rest => .text s depth :: rest.events depth
  | element name attributes inside rest =>
    .opened name attributes (depth + 1) ::
      (inside.events (depth + 1) ++ .closed name (depth + 1) :: rest.events depth)

/-- The names of the elements in a row. -/
def names : Forest → List String
  | done => []
  | text _ rest => rest.names
  | element name _ _ rest => name :: rest.names

end Forest

/-! ### Nodes -/

namespace RuleBook

/-- The rules whose text modes act on an element: those with a close handler that select it or an
element around it. -/
def shaping (book : RuleBook H) (path : List String) : List (Rule H) :=
  (path.inits.flatMap book.selecting).filter Rule.wantsNode

/-- The text mode of an element: it does what the mode of any of these rules does. -/
def modeAt (book : RuleBook H) (path : List String) : TextMode :=
  (book.shaping path).foldl (fun mode r => mode.join r.mode) .keep

/-- What is known of an element inside the one at a path, behind siblings of the given names. -/
def tag (book : RuleBook H) (path before : List String) (name : String)
    (attributes : Table Value) : Tag :=
  { name
    path := pathOf (path ++ [name])
    attributes
    position := .int ((before.count name + 1 : Nat) : Int)
    mode := book.modeAt (path ++ [name]) }

end RuleBook

/-- A text in a node; an empty one is left out. -/
def keptText (s : String) : List Content := if s.isEmpty then [] else [.text s]

/-- What stands in the node of the element at a path, from some place in it on: `before` are the
names of the elements in front of it, `run` is the text since the last of them. Each text between
two elements is normalised as one. -/
def Forest.contents (book : RuleBook H) (path before : List String) (run : String) :
    Forest → List Content
  | .done => keptText ((book.modeAt path).apply run before.isEmpty true)
  | .text s rest => rest.contents book path before (run ++ s)
  | .element name attributes inside rest =>
    keptText ((book.modeAt path).apply run before.isEmpty false) ++
      .element (book.tag path before name attributes)
          (inside.contents book (path ++ [name]) [] "") ::
        rest.contents book path (before ++ [name]) ""

/-- The node of an element inside the one at a path, behind siblings of the given names: what a
close handler is to be given of it, read off the document. Its position is the number of siblings of
its name that it comes behind, and one. -/
def RuleBook.node (book : RuleBook H) (path before : List String) (name : String)
    (attributes : Table Value) (inside : Forest) : Node :=
  ⟨book.tag path before name attributes, inside.contents book (path ++ [name]) [] ""⟩

/-- The notice of an element inside the one at a path, behind siblings of the given names. -/
def noticeOf (path before : List String) (name : String) (attributes : Table Value) : Opening :=
  { name
    path := pathOf (path ++ [name])
    attributes
    position := before.count name + 1
    depth := path.length + 1 }

/-! ### Calls -/

/-- A call of a handler, without what only the drive knows of: which rule, for which element, in
which phase, and with what. Calls are compared with the document by these. -/
structure Visit (H : Type) where
  /-- The handler that is called. -/
  handler : H
  /-- When it is called. -/
  phase : Phase
  /-- The rule that selected the element. -/
  rule : Rule H
  /-- The path of the element. -/
  path : String
  /-- How many elements are open, the element included. -/
  depth : Nat
  /-- What the handler is given. -/
  subject : Subject
  deriving Repr

/-- A call without the identity of the run and without the count of nodes. -/
def Call.visit (c : Call H) : Visit H :=
  { handler := c.handler, phase := c.phase, rule := c.rule, path := c.path, depth := c.depth,
    subject := c.subject }

/-- What a handler is given without what earlier handlers can have changed: of a node nothing is
left. -/
def Subject.place : Subject → Subject
  | .opening o => .opening { o with attributes := [] }
  | .closing _ => .closing default

/-- A call without what earlier handlers can have changed of what the handler is given. -/
def Visit.place (v : Visit H) : Visit H := { v with subject := v.subject.place }

/-- The calls for the element at a path: one for every rule that selects it and has a handler for
the phase, in the order of the book. -/
def RuleBook.visits (book : RuleBook H) (phase : Phase) (path : List String) (subject : Subject) :
    List (Visit H) :=
  (book.selecting path).filterMap fun r => (Session.handlerOf phase r).map fun handler =>
    { handler, phase, rule := r, path := pathOf path, depth := path.length, subject }

/-- The calls for everything in a row inside the element at a path, behind siblings of the given
names. For an element come the open handlers, then everything inside it, then the close handlers. -/
def Forest.visits (book : RuleBook H) (path before : List String) : Forest → List (Visit H)
  | .done => []
  | .text _ rest => rest.visits book path before
  | .element name attributes inside rest =>
    book.visits .opening (path ++ [name]) (.opening (noticeOf path before name attributes)) ++
      inside.visits book (path ++ [name]) [] ++
      book.visits .closing (path ++ [name])
        (.closing (book.node path before name attributes inside)) ++
      rest.visits book path (before ++ [name])

/-! ### Modes -/

namespace TextMode

/-- The mode that does nothing adds nothing. -/
@[simp] theorem keep_join (m : TextMode) : keep.join m = m := by
  cases m <;> rfl

end TextMode

/-- Modes joined to an inherited one, or to none. -/
theorem Stack.joinModes_getD (inherited : Option TextMode) (rules : List (Rule H)) :
    (joinModes inherited rules).getD .keep =
      rules.foldl (fun mode r => mode.join r.mode) (inherited.getD .keep) := by
  induction rules generalizing inherited with
  | nil => rfl
  | cons r rest ih =>
      cases inherited with
      | none =>
          rw [List.foldl_cons, Option.getD_none, TextMode.keep_join]
          exact ih (some r.mode)
      | some m => exact ih (some (m.join r.mode))

/-- No rule selects the place above the root element. -/
theorem RuleBook.selecting_nil (book : RuleBook H) : book.selecting [] = [] := by
  simp [selecting, Pattern.matchesPath]

/-- Above the root element no mode acts. -/
theorem RuleBook.modeAt_nil (book : RuleBook H) : book.modeAt [] = .keep := by
  simp [modeAt, shaping, selecting_nil]

/-- The mode of an element does what that of its parent does and what the rules that select the
element itself do. -/
theorem RuleBook.modeAt_concat (book : RuleBook H) (path : List String) (name : String) :
    book.modeAt (path ++ [name]) =
      ((book.selecting (path ++ [name])).filter Rule.wantsNode).foldl
        (fun mode r => mode.join r.mode) (book.modeAt path) := by
  have hinits : (path ++ [name]).inits = path.inits ++ [path ++ [name]] := by
    simp [List.inits_append]
  rw [modeAt, shaping, hinits, List.flatMap_append, List.filter_append, List.foldl_append,
    List.flatMap_singleton, modeAt, shaping]

end MarkupRouting
