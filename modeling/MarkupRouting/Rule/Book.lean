import MarkupRouting.Log
import MarkupRouting.Pattern.Positions
import MarkupRouting.Pattern.Reader
import MarkupRouting.Rule.Handling

/-!
# Rules and their book

A rule is a pattern with what is done for the elements it selects. A book keeps rules in the order
in which they are consulted, the most specific one first.

* **Rule** — a pattern with its handlers and its text mode.
* **RuleBook** — the rules in order of rank, and how many were ever registered.
* **RuleBook.register**, **registerAll** — one rule more, several rules more.
* **RuleBook.selecting** — the rules that select a path.
* **RuleBook.describe** — the rules as named values.
* **Interest**, **RuleBook.interests**, **Interest.advance** — the rules still travelling towards a
  match with the positions reached, before the root and one name further down.
-/

namespace MarkupRouting

/-- A pattern with what is done for the elements it selects (`Rule`). -/
structure Rule (H : Type) where
  /-- Which elements are selected. -/
  pattern : Pattern
  /-- Called when such an element is entered. -/
  onOpen : Option H
  /-- Called when such an element is left, with its node. -/
  onClose : Option H
  /-- The text mode of the node. -/
  mode : TextMode
  deriving Repr, Inhabited

/-- A rule that asks for the node of the elements it selects (`wants_node`). -/
def Rule.wantsNode {H : Type} (r : Rule H) : Bool := r.onClose.isSome

/-- A rule as named values. -/
def Rule.toTable {H : Type} (r : Rule H) : Table Value :=
  [("pattern", .text r.pattern.source), ("sequence", .int r.pattern.sequence),
    ("wants_node", .bool r.wantsNode), ("open", .bool r.onOpen.isSome),
    ("whitespace", .text r.mode.word)]

/-- Why a rule is not registered. -/
inductive Rule.Flaw where
  /-- What was given is no pattern. -/
  | pattern (source : Value) (flaw : Pattern.Flaw)
  /-- What was given is no handling. -/
  | handling (flaw : Handling.Flaw)
  deriving Repr

/-- Rules in order of rank (`PatternRegistry`). -/
structure RuleBook (H : Type) where
  /-- The text mode of rules that name none. -/
  defaultMode : TextMode
  /-- The rules, the most specific one first. -/
  rules : List (Rule H)
  /-- The number of the next rule. -/
  next : Nat
  deriving Repr, Inhabited

namespace RuleBook

variable {H : Type}

/-- The book without rules. -/
def empty (defaultMode : TextMode) : RuleBook H := { defaultMode, rules := [], next := 0 }

/-- Puts a rule in front of the first one that is less specific. -/
def insert (r : Rule H) : List (Rule H) → List (Rule H)
  | [] => [r]
  | other :: rest =>
    if r.pattern.rank.before other.pattern.rank then r :: other :: rest else other :: insert r rest

/-- The rule that would be registered. A pattern that cannot be read is reported before a handling
that cannot be used. -/
def rule (book : RuleBook H) (source : Value) (offer : Offer H) : Except Rule.Flaw (Rule H) :=
  match Pattern.ofValue source book.next with
  | .error flaw => .error (.pattern source flaw)
  | .ok pattern =>
    match offer.read with
    | .error flaw => .error (.handling flaw)
    | .ok handling => .ok
      { pattern
        onOpen := handling.onOpen
        onClose := handling.onClose
        mode := handling.mode.getD book.defaultMode }

/-- The book with one rule more. -/
def add (book : RuleBook H) (r : Rule H) : RuleBook H :=
  { book with rules := insert r book.rules, next := book.next + 1 }

/-- Registers one rule (`PatternRegistry.register`); the book stays as it is where that fails. -/
def register (book : RuleBook H) (source : Value) (offer : Offer H) :
    Except Rule.Flaw (Rule H × RuleBook H) :=
  match book.rule source offer with
  | .error flaw => .error flaw
  | .ok r => .ok (r, book.add r)

/-- The record of a registration, in the book that has the rule already. -/
def registered (book : RuleBook H) (r : Rule H) (correlation : Value) : Log.Record :=
  let logger := Log.Logger.ofPart "pattern_registry" correlation
  let rank := book.rules.findIdx (fun x => x.pattern.sequence == r.pattern.sequence)
  logger.record .debug "Registered pattern"
    [("pattern", .value (.text r.pattern.source)),
      ("anchored", .value (.bool r.pattern.anchored)),
      ("rank", .value (.int rank)),
      ("has_open_handler", .value (.bool r.onOpen.isSome)),
      ("has_close_handler", .value (.bool r.onClose.isSome))]

/-- Registers rules in turn up to the first one that fails (`register_many`): the rules registered,
each with the book it left, the book in the end and what was wrong. -/
def registerAll (book : RuleBook H) :
    Mapping (Offer H) → List (Rule H × RuleBook H) × RuleBook H × Option Rule.Flaw
  | [] => ([], book, none)
  | (source, offer) :: rest =>
    match book.register source offer with
    | .error flaw => ([], book, some flaw)
    | .ok (r, book) =>
      let (more, last, flaw) := registerAll book rest
      ((r, book) :: more, last, flaw)

/-- The rules that select a path, the most specific one first (`match_path`). -/
def selecting (book : RuleBook H) (path : List String) : List (Rule H) :=
  book.rules.filter (fun r => r.pattern.matchesPath path)

/-- A rule as named values, at the given place in the book. -/
def describeRule (rank : Nat) (r : Rule H) : Table Value :=
  [("rank", .int rank), ("pattern", .text r.pattern.source), ("anchored", .bool r.pattern.anchored),
    ("literals", .int r.pattern.literals), ("wildcards", .int r.pattern.wildcards),
    ("open_handler", .bool r.onOpen.isSome), ("close_handler", .bool r.onClose.isSome),
    ("whitespace", .text r.mode.word)]

/-- The rules as named values, the most specific one first (`PatternRegistry.describe`). -/
def describe (book : RuleBook H) : List (Table Value) :=
  book.rules.mapIdx describeRule

end RuleBook

/-! ## Interests -/

/-- A rule that may still select an element further down, with the positions its steps have reached
(`MatchEngine`). -/
structure Interest (H : Type) where
  /-- The rule. -/
  rule : Rule H
  /-- The positions reached. -/
  states : Positions
  deriving Repr, Inhabited

namespace Interest

variable {H : Type}

/-- The interest one name further down. -/
def advance (i : Interest H) (name : String) : Interest H :=
  { i with states := Positions.advance i.rule.pattern.steps i.states name }

/-- The rule selects the element that was reached. -/
def isMatch (i : Interest H) : Bool := Positions.accepts i.rule.pattern.steps i.states

/-- The rule may select an element further down. -/
def isAlive (i : Interest H) : Bool := Positions.canExtend i.rule.pattern.steps i.states

/-- The rules that select an element, when the given interests were alive at its parent
(`StepResult`). -/
def matched (pending : List (Interest H)) (name : String) : List (Rule H) :=
  ((pending.map (·.advance name)).filter isMatch).map Interest.rule

/-- The interests alive at an element, when the given ones were alive at its parent
(`MatchEngine.step`). -/
def pendingBelow (pending : List (Interest H)) (name : String) : List (Interest H) :=
  (pending.map (·.advance name)).filter isAlive

end Interest

/-- The interests of all rules above the root element (`root_pending`). -/
def RuleBook.interests {H : Type} (book : RuleBook H) : List (Interest H) :=
  book.rules.map (fun r => ⟨r, Positions.start r.pattern.steps⟩)

end MarkupRouting
