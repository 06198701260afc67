import MarkupRouting.Json.Writer
import MarkupRouting.Report.Statistics
import MarkupRouting.Value.Mapping

/-!
# Log records

What the library reports while it works: records with a level, a message and named details, among
them always the component that made the record and the identity of the run it belongs to.

* **Log.Level**, **Log.Threshold** — how grave a record is, and from where on records are kept.
* **Log.Record** — one record; **Log.Logger.record** makes it, **Log.keep** drops those below a
  threshold.
* **Log.detailsOf** — the details that a caller gives.
-/

namespace MarkupRouting.Log

/-- How grave a record is. -/
inductive Level where
  | debug
  | info
  | warning
  | error
  | critical
  deriving DecidableEq, Repr, Inhabited

namespace Level

/-- The name of a level. -/
def name : Level → String
  | debug => "DEBUG"
  | info => "INFO"
  | warning => "WARNING"
  | error => "ERROR"
  | critical => "CRITICAL"

/-- The number by which levels are compared. -/
def number : Level → Int
  | debug => 10
  | info => 20
  | warning => 30
  | error => 40
  | critical => 50

/-- All levels, the least grave one first. -/
def all : List Level := [debug, info, warning, error, critical]

/-- The level of a given name. -/
def ofName? (name : String) : Option Level := all.find? (fun l => l.name == name)

end Level

/-! ## Thresholds -/

/-- The number from which on records are kept (`configure_logging`). -/
structure Threshold where
  /-- Records of a smaller number are dropped. -/
  number : Int
  deriving DecidableEq, Repr, Inhabited

namespace Threshold

/-- The threshold at a level. -/
def ofLevel (l : Level) : Threshold := ⟨l.number⟩

/-- The names under which a threshold can be set, with their numbers. -/
def names : List (String × Int) :=
  Level.all.map (fun l => (l.name, l.number)) ++ [("WARN", 30), ("FATAL", 50), ("NOTSET", 0)]

/-- The threshold that a value asks for, by name or by number. -/
def ofValue? : Value → Option Threshold
  | .text s => (names.lookup s).map Threshold.mk
  | v => v.toInt?.map Threshold.mk

/-- The name of a threshold that a value asked for: that of its level, if it is one, else the value
as it was given. -/
def name (t : Threshold) (asked : Value) : String :=
  match Level.all.find? (fun l => l.number == t.number) with
  | some l => l.name
  | none => if t.number = 0 then "NOTSET" else "Level " ++ asked.shown

/-- The number that counts. A threshold of zero is no threshold of its own, and that of warnings
takes its place. -/
def effective (t : Threshold) : Int := if t.number = 0 then Level.warning.number else t.number

/-- Records of the given level are kept (`is_debug_enabled`). -/
def passes (t : Threshold) (l : Level) : Bool := t.effective ≤ l.number

end Threshold

/-! ## Records -/

/-- One named detail of a record. -/
inductive Detail where
  /-- An untyped value. -/
  | value (v : Value)
  /-- Raw bytes. -/
  | bytes (bs : List UInt8)
  /-- The statistics of a drive. -/
  | statistics (s : Statistics)
  deriving Repr, Inhabited

/-- What the library reports. -/
structure Record where
  /-- How grave it is. -/
  level : Level
  /-- What happened. -/
  message : String
  /-- The kind of error that was being handled. -/
  error : Option String
  /-- Named details. -/
  details : Table Detail
  deriving Repr, Inhabited

/-- Who makes records (`ContextLogger`). -/
structure Logger where
  /-- The component named in every record. -/
  component : Value
  /-- The identity of the run named in every record. -/
  correlation : Value
  deriving Repr, Inhabited

/-- The part of a dotted name behind its last dot. -/
def lastPart (name : String) : String :=
  String.ofList (name.toList.reverse.takeWhile (· != '.')).reverse

/-- The maker of records for a dotted name (`get_logger`); without a component of its own it is
called by the last part of the name. -/
def Logger.named (name : String) (correlation component : Value) : Logger :=
  ⟨if component.isTruthy then component else .text (lastPart name), correlation⟩

/-- The maker of the records of a part of the library. -/
def Logger.ofPart (component : String) (correlation : Value) : Logger :=
  ⟨.text component, correlation⟩

/-- A record with the given details, which may take the place of the two that every record has
(`ContextLogger._extra`). -/
def Logger.record (logger : Logger) (level : Level) (message : String)
    (details : List (String × Detail)) : Record :=
  { level
    message
    error := none
    details := Table.update
      [("component", .value logger.component), ("correlation_id", .value logger.correlation)]
      details }

/-! ## Details from outside -/

/-- Why a value gives no details. -/
inductive Detail.Flaw where
  /-- It has no parts where parts are wanted, or a list or a record where a name is wanted. -/
  | noParts
  /-- One of its parts is no pair. -/
  | notPair
  deriving DecidableEq, Repr

/-- What a value is made of: items, characters or names. -/
def parts : Value → Except Detail.Flaw (List Value)
  | .list vs => .ok vs
  | .text s => .ok (s.toList.map (fun c => .text (String.ofList [c])))
  | .record fields => .ok (fields.map (fun (name, _) => .text name))
  | _ => .error .noParts

/-- A value under a key from a pair. -/
def pairOf (v : Value) : Except Detail.Flaw (Value × Value) := do
  match ← parts v with
  | [key, x] => if key.isKey then return (key, x) else throw .noParts
  | _ => throw .notPair

/-- A key as the name of a detail: one that is no text is written as data. -/
def nameOf : Value → String
  | .text name => name
  | key => Json.write .line key

/-- The details that a value gives: those of a record, or a list of pairs. What counts as false
gives none. -/
def detailsOf (v : Value) : Except Detail.Flaw (Table Value) :=
  match v with
  | .record fields => .ok fields
  | v =>
    if v.isTruthy then do
      let details := Mapping.ofPairs (← (← parts v).mapM pairOf)
      return details.map (fun (key, x) => (nameOf key, x))
    else .ok []

/-- The names of what every record has besides its details. -/
def reserved : List String :=
  ["name", "msg", "message", "args", "levelname", "levelno", "pathname", "filename", "module",
    "exc_info", "exc_text", "stack_info", "lineno", "funcName", "created", "msecs",
    "relativeCreated", "thread", "threadName", "process", "processName", "asctime"]

/-- A record with the given details, none of which may have the name of what every record has. -/
def Logger.record? (logger : Logger) (level : Level) (message : String)
    (details : List (String × Detail)) : Option Record :=
  if details.any (fun (name, _) => reserved.contains name) then none
  else some (logger.record level message details)

/-- The records that a threshold keeps. -/
def keep (t : Threshold) (records : List Record) : List Record :=
  records.filter (fun r => t.passes r.level)

end MarkupRouting.Log
