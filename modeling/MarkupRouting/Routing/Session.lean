import MarkupRouting.Report.Basic
import MarkupRouting.Report.Monitor
import MarkupRouting.Routing.Action
import MarkupRouting.Routing.Feed
import MarkupRouting.Routing.Stack

/-!
# Sessions

One drive of one document. Every event of the feed changes the stack of open elements, the nodes
that are being built and what is counted; where an element is entered or left, the handlers of the
rules that select it are called in order of rank.

* **Tally**, **Session** — what is counted; the state between two events.
* **Session.invoke**, **invokeAll** — one handler is called; all handlers of an element are called,
  until one fails or asks for the drive to be stopped.
* **Session.enter**, **hear**, **leave**, **dispatch**, **take** — the session after an event.
* **Session.run** — the session after all events, or after those up to a fault or a stop.
* **Session.conclude** — what is left open is given up, and the end is reported.
-/

namespace MarkupRouting

/-- What a drive counts. -/
structure Tally where
  /-- Items taken from the feed. -/
  events : Nat := 0
  /-- Elements entered. -/
  opened : Nat := 0
  /-- Elements left. -/
  closed : Nat := 0
  /-- The largest number of elements open at once. -/
  maxDepth : Nat := 0
  /-- Calls of open handlers. -/
  openCalls : Nat := 0
  /-- Calls of close handlers. -/
  closeCalls : Nat := 0
  deriving DecidableEq, Repr, Inhabited

namespace Tally

/-- The tally after one more item was taken. -/
def took (t : Tally) : Tally := { t with events := t.events + 1 }

/-- The tally after an element was entered, with so many elements open now. -/
def entered (t : Tally) (depth : Nat) : Tally :=
  { t with opened := t.opened + 1, maxDepth := max t.maxDepth depth }

/-- The tally after an element was left. -/
def left (t : Tally) : Tally := { t with closed := t.closed + 1 }

/-- The tally with one more call of a handler. -/
def called (t : Tally) : Phase → Tally
  | .opening => { t with openCalls := t.openCalls + 1 }
  | .closing => { t with closeCalls := t.closeCalls + 1 }

end Tally

/-- The state of a drive between two events (`_DriveSession`). -/
structure Session (H σ : Type) where
  /-- The identity of the run. -/
  correlation : Value
  /-- The dispatcher is driving. -/
  driving : Bool
  /-- The open elements. -/
  stack : Stack H
  /-- How many nodes were built and given up. -/
  ledger : Ledger
  /-- What else is counted. -/
  tally : Tally := {}
  /-- The path of the element at which the drive was asked to stop. -/
  stopPath : Option String := none
  /-- A text outside the root element was met. -/
  strayText : Bool := false
  /-- An element was refused because it has a name that is no text. -/
  nameless : Bool := false
  /-- What was observed, in order. -/
  diagnostics : List Diagnostic := []
  /-- Samples of resident memory, where they are taken. -/
  monitor : Option Monitor := none
  /-- How often the feed was asked for something and did not end. -/
  pulled : Nat := 0
  /-- The calls made, the last one first. -/
  calls : List (Call H) := []
  /-- The records made, the last one first. -/
  records : List Log.Record := []
  /-- What the handlers keep. -/
  world : σ

namespace Session

variable {H σ : Type}

/-- The drive was asked to stop. -/
def stopped (s : Session H σ) : Bool := s.stopPath.isSome

/-- The session with one more record. -/
def log (s : Session H σ) (r : Log.Record) : Session H σ := { s with records := r :: s.records }

/-- The session with one more record of the drive itself. -/
def tell (s : Session H σ) (level : Log.Level) (message : String)
    (details : List (String × Log.Detail)) : Session H σ :=
  s.log (driveRecord s.correlation level message details)

/-- The session with one more observation (`add_diagnostic`). -/
def diagnose (s : Session H σ) (severity : Severity) (message : String) (path : Option String)
    (details : Option (Table Value)) : Session H σ :=
  let d : Diagnostic :=
    { severity
      message := .text message
      component := .text "drive"
      path := Value.ofText? path
      details := (details.map .record).getD .null
      correlation := s.correlation }
  { s with diagnostics := s.diagnostics ++ [d] }

/-! ## Samples -/

/-- The session with one more sample, where samples are taken (`MemoryMonitor.sample`). -/
def sample (s : Session H σ) (label : String) : Session H σ :=
  match s.monitor with
  | none => s
  | some m => { s with monitor := some (m.sample label) }.log (Monitor.record label s.correlation)

/-- The session with one more sample, where the count of events is due (`maybe_sample`). -/
def maybeSample (s : Session H σ) : Session H σ :=
  match s.monitor with
  | none => s
  | some m =>
    if (m.isDue (.int s.tally.events)).toOption.getD false then
      s.sample ("event " ++ toString s.tally.events)
    else s

/-! ## Calls -/

/-- The call of a handler for the element of a frame. -/
def call (s : Session H σ) (phase : Phase) (handler : H) (rule : Rule H) (turn : Turn H) : Call H :=
  { handler
    phase
    rule
    path := turn.path
    depth := turn.frame.depth
    correlation := s.correlation
    live := s.ledger.live
    subject := turn.subject }

/-- The turn that a call begins with. -/
def turn (s : Session H σ) (phase : Phase) (f : Frame H) : Turn H :=
  { frame := f, phase, stopPath := s.stopPath, driving := s.driving, correlation := s.correlation,
    records := s.records }

/-- What is reported where a handler failed with a cause (`HandlerError.__init__`): that it failed,
where, and with what. The report says what the cause says, so that asking the cause comes first;
where that fails with another fault, this is all that is left. -/
def reportOf (cause : Fault) (path element pattern : String) (phase : Phase) : Fault :=
  cause.mute?.getD (.handler cause path element pattern phase)

/-- A handler is called for the element of a frame (`_DriveSession._invoke`): the session and the
frame afterwards, and the fault with which the handler failed. A handler that fails by asking for a
stop has asked for one. -/
def invoke (b : Behavior H σ) (phase : Phase) (handler : H) (rule : Rule H) (s : Session H σ)
    (f : Frame H) : Session H σ × Frame H × Option Fault :=
  let turn := s.turn phase f
  let call := s.call phase handler rule turn
  let (turn, world, fault) := (b call s.world).run turn
  let settled := fun (turn : Turn H) => { s with
    tally := s.tally.called phase
    stopPath := turn.stopPath
    calls := call :: s.calls
    records := turn.records
    world }
  match fault with
  | none => (settled turn, turn.frame, none)
  | some cause =>
    if cause.isStop then (settled turn.stop, turn.frame, none)
    else
      (settled turn, turn.frame,
        some (reportOf cause call.path f.name rule.pattern.source phase))

/-- The handler of a rule for a phase. -/
def handlerOf (phase : Phase) (r : Rule H) : Option H :=
  match phase with
  | .opening => r.onOpen
  | .closing => r.onClose

/-- The handlers of several rules are called in turn, until one fails or the drive was asked to
stop. -/
def invokeAll (b : Behavior H σ) (phase : Phase) :
    List (Rule H) → Session H σ → Frame H → Session H σ × Frame H × Option Fault
  | [], s, f => (s, f, none)
  | r :: rest, s, f =>
    match handlerOf phase r with
    | none => invokeAll b phase rest s f
    | some h =>
      let (s, f, fault) := s.invoke b phase h r f
      if fault.isSome || s.stopped then (s, f, fault) else invokeAll b phase rest s f

/-! ## Events -/

/-- Frames are given up without a handler being called: the session afterwards, and how many nodes
went with them. -/
def giveUp (s : Session H σ) (frames : List (Frame H)) : Session H σ × Nat :=
  let ledger := (Frame.releaseAll frames s.ledger).2
  let count := ledger.freed - s.ledger.freed
  let s := { s with ledger }
  if frames.isEmpty then (s, count)
  else
    let logger := Log.Logger.ofPart "lifecycle_manager" s.correlation
    (s.log (logger.record .debug "Released open frames"
      [("frames", .value (.int frames.length)), ("nodes_released", .value (.int count))]), count)

/-- The session with the record of an element that is entered. -/
def tellEntered (s : Session H σ) (f : Frame H) : Session H σ :=
  s.tell .debug "Element opened"
    [("element", .value f.givenName), ("depth", .value (.int f.depth)),
      ("pending", .value (.int f.pending.length)),
      ("materializing", .value (.bool f.materializing))]

/-- An element is entered (`_on_open`). -/
def enter (b : Behavior H σ) (name : String) (attributes : Table Value) (s : Session H σ) :
    Session H σ × Option Fault :=
  let (f, around) := (s.stack.mapTop (·.flush false)).enter name attributes
  if s.stack.isSpoiled then (s, some .notText)
  else if f.path.isSome && !s.stack.hasPath then (s, some .noPath)
  else
    let (f, ledger) := f.start s.ledger
    let s := { s with stack := around, ledger, tally := s.tally.entered f.depth }.tellEntered f
    let (s, f, fault) := invokeAll b .opening f.openRules s f
    ({ s with stack := s.stack.push f }, fault)

/-- An element is entered under a name that is no text. No name in a pattern is like it, so that
only patterns without names select it; where one does the element needs a path, which it cannot
have. -/
def enterMisnamed (name : Value) (s : Session H σ) : Session H σ × Option Fault :=
  if s.stack.isSpoiled then (s, some .notText)
  else if !name.isKey then (s, some .notKey)
  else
    let (f, around) := (s.stack.mapTop (·.flush false)).enter "" []
    if f.path.isSome then ({ s with nameless := true }, some .noPath)
    else
      let f := { f with misnomer := some name }
      ({ s with stack := around.push f, tally := s.tally.entered f.depth }.tellEntered f, none)

/-- A text comes (`_on_text`). Outside the root element it is dropped, which is reported once where
it is not blank. -/
def hear (text : String) (s : Session H σ) : Session H σ :=
  if s.stack.frames.isEmpty then
    if Text.isBlankText text || s.strayText then s
    else
      { s with strayText := true }.diagnose .warning "Text outside the root element ignored" none
        none
  else { s with stack := s.stack.mapTop (·.addText text) }

/-- Something comes in place of a text. Outside the root element it is looked at, inside an element
that is built it is held back. -/
def mishear (s : Session H σ) : Session H σ × Option Fault :=
  if s.stack.frames.isEmpty then (s, some .notCapable)
  else ({ s with stack := s.stack.mapTop (·.spoil) }, none)

/-- An element is left (`_on_close`). The frame of an element whose close handler is reported to
have failed is given up with it; one whose texts cannot be put together is not, nor is one whose
handler failed with what cannot be reported. -/
def leave (b : Behavior H σ) (s : Session H σ) : Session H σ × Option Fault :=
  match s.stack.leave? with
  | none => (s, some .nothingOpen)
  | some (f, around) =>
    let s := { s with stack := around, tally := s.tally.left }
    if f.spoiled then (s, some .notText)
    else
      let f := f.complete
      let (s, f, fault) :=
        if f.contents.isSome then invokeAll b .closing f.closeRules s f else (s, f, none)
      match fault with
      | some fault => (if fault.isHandler then (s.giveUp [f]).1 else s, some fault)
      | none =>
        match s.stack.settle f s.ledger with
        | .error flaw => (s, some (.frame flaw))
        | .ok (fate, stack, ledger) =>
          ({ s with stack, ledger }.tell .debug "Element closed"
            [("element", .value f.givenName), ("disposition", .value (.text fate.name))], none)

/-- The session after an item of the feed, with the fault that ends the drive there
(`_dispatch`). -/
def dispatch (b : Behavior H σ) (s : Session H σ) : Item → Session H σ × Option Fault
  | .event (.opened name attributes _) => s.enter b name attributes
  | .event (.text text _) => (s.hear text, none)
  | .event (.closed _ _) => s.leave b
  | .misnamed name => s.enterMisnamed name
  | .notText => s.mishear
  | .foreign typeName => (s, some (.eventType typeName))

/-- The session after an item was taken from the feed, with the fault that ends the drive there. -/
def take (b : Behavior H σ) (s : Session H σ) (i : Item) : Session H σ × Option Fault :=
  match { s with pulled := s.pulled + 1, tally := s.tally.took }.dispatch b i with
  | (s, some fault) => (s, some fault)
  | (s, none) => (s.maybeSample, none)

/-- The session after the items of a feed, up to a fault or to the end of the event at which the
drive was asked to stop (`_DriveSession.run`). -/
def run (b : Behavior H σ) (s : Session H σ) : Feed → Session H σ × Option Fault
  | .done => (s, none)
  | .fault fault => ({ s with pulled := s.pulled + 1 }, some fault)
  | .read _ rest => run b s rest
  | .note r rest => run b (s.log r) rest
  | .item i rest =>
    match s.take b i with
    | (s, some fault) => (s, some fault)
    | (s, none) => if s.stopped then (s, none) else run b s rest

/-! ## The end -/

/-- The stack is cleared and its frames are given up (`release_all` and `release_open_frames`): the
session afterwards, how many frames there were, and how many nodes went with them. -/
def clear (s : Session H σ) : Session H σ × Nat × Nat :=
  let frames := s.stack.frames
  let (s, count) := { s with stack := s.stack.cleared }.giveUp frames
  (s, frames.length, count)

/-- The drive was stopped by a handler (`_release_on_stop`). -/
def endStopped (s : Session H σ) : Session H σ :=
  let (s, frames, nodes) := s.clear
  s.diagnose .info "Processing stopped by handler" s.stopPath
    (some [("open_frames_released", .int frames), ("nodes_released", .int nodes)])

/-- The feed came to its end (`_release_unclosed`). Elements that are still open are given up, and
reported. -/
def endFed (s : Session H σ) : Session H σ :=
  if s.stack.frames.isEmpty then s
  else
    let path := s.stack.path
    let (s, frames, _) := s.clear
    s.diagnose .warning ("Input ended with " ++ toString frames ++ " open element(s)") (some path)
      none

/-- The path at which a drive is reported to be aborted: the one the fault knows of, else that of
the innermost open element. -/
def abortPath (s : Session H σ) (fault : Fault) : Value :=
  match fault.path? with
  | some path => path
  | none => .ofText? (if s.stack.frames.isEmpty then none else some s.stack.path)

/-- The drive is aborted by a fault (`_abort`). -/
def endAborted (s : Session H σ) (fault : Fault) : Session H σ :=
  let path := s.abortPath fault
  let (s, frames, nodes) := s.clear
  s.log { driveRecord s.correlation .error "Drive aborted"
    [("error_type", .value (.text fault.kind)),
      ("path", .value path),
      ("open_frames_released", .value (.int frames)),
      ("nodes_released", .value (.int nodes))] with error := some fault.kind }

/-- The end of the drive has to name a path that does not exist: that of the innermost open element,
where one has a name that is no text or was just refused for it. A drive that was stopped names no
path but the one it was stopped at. -/
def isStuck (s : Session H σ) (fault : Option Fault) : Bool :=
  !s.stack.frames.isEmpty && (fault.isSome || !s.stopped) && (!s.stack.hasPath || s.nameless)

/-- The session after its end, and the fault that ended it (`_finalize`). Where the end cannot name
its path nothing is given up and nothing reported. -/
def conclude (s : Session H σ) (fault : Option Fault) : Session H σ × Option Fault :=
  if s.isStuck fault then (s, some .noPath)
  else
    match fault with
    | some fault => (s.endAborted fault, some fault)
    | none => (if s.stopped then s.endStopped else s.endFed, none)

/-- The statistics of a session that took so much time. -/
def statistics (s : Session H σ) (elapsed : Double) : Statistics :=
  { eventsProcessed := .int s.tally.events
    elementsOpened := .int s.tally.opened
    elementsClosed := .int s.tally.closed
    maxDepth := .int s.tally.maxDepth
    openHandlerCalls := .int s.tally.openCalls
    closeHandlerCalls := .int s.tally.closeCalls
    nodesCreated := .int s.ledger.built
    nodesReleased := .int s.ledger.freed
    peakLiveNodes := .int s.ledger.peak
    processingTime := elapsed
    startMemory := .ofInt? (s.monitor.bind Monitor.start?)
    peakMemory := .ofInt? (s.monitor.bind Monitor.peak?)
    endMemory := .ofInt? (s.monitor.bind Monitor.last?) }

/-- The report of a session that returned. -/
def report (s : Session H σ) (elapsed : Double) : Report :=
  { completed := !s.stopped
    cancelled := s.stopped
    statistics := s.statistics elapsed
    diagnostics := s.diagnostics
    correlation := s.correlation }

end Session

end MarkupRouting
