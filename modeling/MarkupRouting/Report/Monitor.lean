import MarkupRouting.Log
import MarkupRouting.Value.Arithmetic

/-!
# Memory samples

The resident memory of the process, sampled at the start, every so many events and at the end. The
readings come from outside.

* **Monitor** — the interval, the samples so far and the meter they are read from.
* **Monitor.make** — a monitor with an interval above zero.
* **Monitor.sample**, **maybeSample** — one sample more, always or where the count of events is due.
-/

namespace MarkupRouting

/-- One reading (`MemorySample`). -/
structure Sample where
  /-- When it was taken. -/
  label : String
  /-- Resident memory in bytes. -/
  bytes : Int
  deriving DecidableEq, Repr, Inhabited

/-- The samples of a run (`MemoryMonitor`). -/
structure Monitor where
  /-- How many events lie between two samples. -/
  interval : Value
  /-- The samples so far, the last one first. -/
  taken : List Sample := []
  /-- How many they are. -/
  count : Nat := 0
  /-- The reading that the sample with a given number gets. -/
  meter : Nat → Int

namespace Monitor

/-- Why there is no monitor, or no answer from it. -/
inductive Flaw where
  /-- The interval is not above zero. -/
  | interval
  /-- The interval or a count is no number. -/
  | notNumber
  /-- The interval or a count is too large to be compared with a double. -/
  | tooLarge
  deriving DecidableEq, Repr

/-- The name of the flaw's kind. -/
def Flaw.kind : Flaw → String
  | interval => "ValueError"
  | notNumber => "TypeError"
  | tooLarge => "OverflowError"

/-- What is wrong with a value that cannot be calculated with. -/
def Flaw.ofMismatch : Value.Mismatch → Flaw
  | .notNumber => notNumber
  | .tooLarge => tooLarge

/-- The flaw in words; none where it has no words of its own. -/
def Flaw.message : Flaw → Option String
  | interval => some "sample_interval must be > 0"
  | notNumber | tooLarge => none

/-- A monitor with an interval above zero (`MemoryMonitor.__post_init__`). -/
def make (interval : Value) (meter : Nat → Int) : Except Flaw Monitor :=
  match interval.atMostZero? with
  | none => .error .notNumber
  | some true => .error .interval
  | some false => .ok { interval, meter }

/-- One sample more (`MemoryMonitor.sample`). -/
def sample (m : Monitor) (label : String) : Monitor :=
  { m with taken := ⟨label, m.meter m.count⟩ :: m.taken, count := m.count + 1 }

/-- The samples so far, in order. -/
def samples (m : Monitor) : List Sample := m.taken.reverse

/-- A count is a multiple of the interval. -/
def isDue (m : Monitor) (count : Value) : Except Flaw Bool :=
  (count.isMultipleOf m.interval).mapError Flaw.ofMismatch

/-- One sample more, where the count of events is due (`maybe_sample`); nothing where it is not. -/
def maybeSample (m : Monitor) (count : Value) : Except Flaw (Option Monitor) :=
  (m.isDue count).map fun due => if due then some (m.sample ("event " ++ count.shown)) else none

/-- The first reading (`start_rss`). -/
def start? (m : Monitor) : Option Int := m.samples.head?.map Sample.bytes

/-- The last reading (`end_rss`). -/
def last? (m : Monitor) : Option Int := m.taken.head?.map Sample.bytes

/-- The largest reading (`peak_rss`). -/
def peak? (m : Monitor) : Option Int := (m.taken.map Sample.bytes).max?

/-- The record of a sample. -/
def record (label : String) (correlation : Value) : Log.Record :=
  let logger := Log.Logger.ofPart "memory_monitor" correlation
  logger.record .debug "Memory sample" [("label", .value (.text label))]

end Monitor

end MarkupRouting
