import MarkupRouting.Number.Literal
import MarkupRouting.Value.Arithmetic

/-!
# Statistics

What a drive counts about itself. Statistics that a caller makes may hold any values in place of the
counts; only what is derived from them needs numbers.

* **Statistics** — the counts, the time taken and the resident memory sampled.
* **Statistics.elementsPerSecond**, **materializedRatio**, **liveNodes** — figures derived from
  them, where that is possible.
* **Statistics.toTable**, **ofFields** — statistics as named values, and from them.
-/

namespace MarkupRouting

/-- What a drive counts about itself (`DriveStatistics`). -/
structure Statistics where
  /-- Events pulled from the source. -/
  eventsProcessed : Value := .int 0
  /-- Elements entered. -/
  elementsOpened : Value := .int 0
  /-- Elements left. -/
  elementsClosed : Value := .int 0
  /-- The largest number of elements open at once. -/
  maxDepth : Value := .int 0
  /-- Calls of open handlers. -/
  openHandlerCalls : Value := .int 0
  /-- Calls of close handlers. -/
  closeHandlerCalls : Value := .int 0
  /-- Nodes built. -/
  nodesCreated : Value := .int 0
  /-- Nodes given up. -/
  nodesReleased : Value := .int 0
  /-- The largest number of nodes built and not yet given up. -/
  peakLiveNodes : Value := .int 0
  /-- Milliseconds taken. -/
  processingTime : Double := Double.zero
  /-- Resident memory at the start, in bytes. -/
  startMemory : Value := .null
  /-- The largest resident memory sampled, in bytes. -/
  peakMemory : Value := .null
  /-- Resident memory at the end, in bytes. -/
  endMemory : Value := .null
  deriving Repr, Inhabited

namespace Statistics

/-- Why named values are no statistics, or statistics have no derived figures. -/
inductive Flaw where
  /-- There is a name that is no count, or a value of the wrong type. -/
  | unexpected
  /-- A number is too large for a double. -/
  | tooLarge
  /-- A text should be a number and is none. -/
  | notDecimal
  deriving DecidableEq, Repr

/-- The name of the flaw's kind. -/
def Flaw.kind : Flaw → String
  | unexpected => "TypeError"
  | tooLarge => "OverflowError"
  | notDecimal => "ValueError"

/-- What is wrong with a value that cannot be calculated with. -/
def Flaw.ofMismatch : Value.Mismatch → Flaw
  | .notNumber => unexpected
  | .tooLarge => tooLarge

/-- A result of arithmetic. -/
def figure {α : Type} (r : Except Value.Mismatch α) : Except Flaw α := r.mapError Flaw.ofMismatch

/-- Nodes built and not given up (`live_nodes`). -/
def liveNodes (s : Statistics) : Except Flaw Value := figure (s.nodesCreated.minus s.nodesReleased)

/-- Elements entered per second (`elements_per_second`); zero where no time was taken. -/
def elementsPerSecond (s : Statistics) : Except Flaw Double :=
  if s.processingTime.isNonpositive then .ok Double.zero
  else figure do
    let opened ← s.elementsOpened.toDouble
    let thousand ← Value.doubleOfInt 1000
    return (opened.mul thousand).div s.processingTime

/-- The share of the elements entered for which a node was built (`materialized_ratio`); zero where
none was entered. -/
def materializedRatio (s : Statistics) : Except Flaw Double :=
  if s.elementsOpened.alike (.int 0) then .ok Double.zero
  else figure (s.nodesCreated.quotient s.elementsOpened)

/-- The statistics as named values, with the derived figures (`DriveStatistics.to_dict`). -/
def toTable (s : Statistics) : Except Flaw (Table Value) := do
  let perSecond ← s.elementsPerSecond
  let ratio ← s.materializedRatio
  return [("events_processed", s.eventsProcessed), ("elements_opened", s.elementsOpened),
    ("elements_closed", s.elementsClosed), ("max_depth", s.maxDepth),
    ("open_handler_calls", s.openHandlerCalls), ("close_handler_calls", s.closeHandlerCalls),
    ("nodes_created", s.nodesCreated), ("nodes_released", s.nodesReleased),
    ("peak_live_nodes", s.peakLiveNodes), ("processing_time_ms", .double s.processingTime),
    ("elements_per_second", .double perSecond), ("materialized_ratio", .double ratio),
    ("start_rss_bytes", s.startMemory), ("peak_rss_bytes", s.peakMemory),
    ("end_rss_bytes", s.endMemory)]

/-- A time in milliseconds, which may be written in a text. -/
def readTime (v : Value) : Except Flaw Double :=
  match v with
  | .text s =>
    match Double.ofText? s with
    | some x => .ok x
    | none => .error .notDecimal
  | v => figure v.toDouble

/-- The statistics with one more named value set; the time is set elsewhere. -/
def set (s : Statistics) (name : String) (v : Value) : Except Flaw Statistics :=
  match name with
  | "events_processed" => .ok { s with eventsProcessed := v }
  | "elements_opened" => .ok { s with elementsOpened := v }
  | "elements_closed" => .ok { s with elementsClosed := v }
  | "max_depth" => .ok { s with maxDepth := v }
  | "open_handler_calls" => .ok { s with openHandlerCalls := v }
  | "close_handler_calls" => .ok { s with closeHandlerCalls := v }
  | "nodes_created" => .ok { s with nodesCreated := v }
  | "nodes_released" => .ok { s with nodesReleased := v }
  | "peak_live_nodes" => .ok { s with peakLiveNodes := v }
  | "processing_time_ms" => .ok s
  | "start_rss_bytes" => .ok { s with startMemory := v }
  | "peak_rss_bytes" => .ok { s with peakMemory := v }
  | "end_rss_bytes" => .ok { s with endMemory := v }
  | _ => .error .unexpected

/-- The statistics with the given named values and zero elsewhere. The time is looked at before
anything else. -/
def ofFields (fields : Table Value) : Except Flaw Statistics := do
  let processingTime ← match fields.get? "processing_time_ms" with
    | some v => readTime v
    | none => .ok Double.zero
  fields.foldlM (fun s (name, v) => s.set name v) { processingTime }

end Statistics

end MarkupRouting
