import MarkupRouting.Markup.Document
import MarkupRouting.Routing.Session

/-!
# Dispatchers

A dispatcher keeps a book of rules and drives documents through it, one at a time. While it drives
it grants no request of the handlers it calls.

* **Dispatcher** — settings, rules, the ledger of nodes and whether it is driving.
* **Dispatcher.make**, **register** — a dispatcher with given rules; one rule more.
* **Surroundings** — what a drive takes from the world outside.
* **Outcome** — what came of a drive.
* **Dispatcher.drive** — drives one source.
-/

namespace MarkupRouting

/-- Rules by pattern with one more handling: of several for one pattern the first place and the last
handling count. Not every value can be looked up as a pattern. -/
def gatherRule {H : Type} (rules : Mapping (Offer H)) (pattern : Value) (offer : Offer H) :
    Except Fault (Mapping (Offer H)) :=
  if pattern.isKey then .ok (rules.put pattern offer) else .error .notKey

/-- What keeps rules and drives documents through them (`RuleDispatcher`). -/
structure Dispatcher (H : Type) where
  /-- What it was told about its work. -/
  settings : Settings
  /-- Its rules. -/
  book : RuleBook H
  /-- How many nodes were built and given up since the last drive began. -/
  ledger : Ledger := {}
  /-- It is driving a document. -/
  driving : Bool := false
  deriving Repr, Inhabited

/-- What a drive takes from the world outside. -/
structure Surroundings where
  /-- The identity of the run, where the settings give none. -/
  identity : String
  /-- The readings of resident memory in turn. -/
  meter : Nat → Int
  /-- How many milliseconds the drive takes. -/
  elapsed : Double

/-- What came of a drive. -/
structure Outcome (H σ : Type) where
  /-- The report, or the fault that ended the drive. -/
  result : Except Fault Report
  /-- The calls made, in order. -/
  calls : List (Call H) := []
  /-- The records made, in order. -/
  records : List Log.Record := []
  /-- How often the source was asked for something and did not end. -/
  pulled : Nat := 0
  /-- How often the source was closed. -/
  closes : Nat := 0
  /-- What the handlers kept. -/
  world : σ

/-- The outcome with some records in front of its own. -/
def Outcome.after {H σ : Type} (records : List Log.Record) (o : Outcome H σ) : Outcome H σ :=
  { o with records := records ++ o.records }

namespace Dispatcher

variable {H σ : Type}

/-- The dispatcher with a rule more, and the record of it (`RuleDispatcher.register`). -/
def register (d : Dispatcher H) (source : Value) (offer : Offer H) :
    Except Fault (Rule H × Log.Record × Dispatcher H) :=
  match refusal d.driving .register with
  | some fault => .error fault
  | none =>
    match d.book.register source offer with
    | .error flaw => .error (.rule flaw)
    | .ok (r, book) => .ok (r, book.registered r d.settings.correlation, { d with book })

/-- A dispatcher with the given rules, and the records of their registration up to the first one
that fails (`RuleDispatcher.__init__`). -/
def make (settings : Settings) (rules : Mapping (Offer H)) :
    List Log.Record × Except Fault (Dispatcher H) :=
  let (registered, book, flaw) := (RuleBook.empty settings.defaultMode).registerAll rules
  (registered.map (fun (r, book) => book.registered r settings.correlation),
    match flaw with
    | some flaw => .error (.rule flaw)
    | none => .ok { settings, book })

/-- The identity of the next run. -/
def identity (d : Dispatcher H) (around : Surroundings) : Value :=
  if d.settings.correlation.isTruthy then d.settings.correlation else .text around.identity

/-- A source opened for a drive (`_DriveSession._open`): what it will hand out, and whether it has
to be closed. -/
def openSource (d : Dispatcher H) (t : Markup.Tokenizer) (correlation : Value) (s : Source) :
    Except Fault (Feed × Bool) :=
  match s with
  | .items _ feed closable => .ok (feed, closable)
  | .other v => .error (.sourceType v.typeName)
  | s => (Document.open? t (Document.Options.ofSettings d.settings correlation) s).map (·, true)

/-- The session in which a drive begins. -/
def session (d : Dispatcher H) (around : Surroundings) (s : Source) (world : σ) : Session H σ :=
  let correlation := d.identity around
  let start : Session H σ :=
    { correlation
      driving := d.driving
      stack := Stack.ofBook d.book
      ledger := d.ledger
      monitor :=
        if d.settings.trackMemory.isTruthy then
          some { interval := d.settings.sampleInterval, meter := around.meter }
        else none
      world }
  (start.tell .info "Starting drive"
    [("source_type", .value (.text s.typeName)),
      ("rule_count", .value (.int d.book.rules.length))]).sample "start"

/-- The session behind the end of a feed, and the fault that ended it. -/
def runSession (b : Behavior H σ) (s : Session H σ) (feed : Feed) : Session H σ × Option Fault :=
  let (s, fault) := s.run b feed
  let (s, fault) := s.conclude fault
  (s.sample "end", fault)

/-- What came of a session that is over. -/
def outcome (s : Session H σ) (fault : Option Fault) (elapsed : Double) (closed : Bool) :
    Outcome H σ :=
  let report := s.report elapsed
  let (result, last) : Except Fault Report × List Log.Record :=
    match fault with
    | some fault => (.error fault, [])
    | none => (.ok report, [driveRecord s.correlation .info "Drive finished" report.summary])
  { result
    calls := s.calls.reverse
    records := s.records.reverse ++ last
    pulled := s.pulled
    closes := if closed then 1 else 0
    world := s.world }

/-- The dispatcher while it drives: no node was built or given up yet. -/
def engaged (d : Dispatcher H) : Dispatcher H :=
  { d with driving := true, ledger := d.ledger.reset }

/-- Drives a source (`RuleDispatcher.drive`): what came of it, and the dispatcher afterwards. A
source from which nothing can be driven is refused before anything is recorded. -/
def drive (d : Dispatcher H) (b : Behavior H σ) (t : Markup.Tokenizer) (around : Surroundings)
    (s : Source) (world : σ) : Outcome H σ × Dispatcher H :=
  match refusal d.driving .drive with
  | some fault => ({ result := .error fault, world }, d)
  | none =>
    let d := d.engaged
    match d.openSource t (d.identity around) s with
    | .error fault => ({ result := .error fault, world }, { d with driving := false })
    | .ok (feed, closable) =>
      let (last, fault) := runSession b (d.session around s world) feed
      (outcome last fault around.elapsed closable,
        { d with driving := false, ledger := last.ledger })

end Dispatcher

end MarkupRouting
