import MarkupRouting.Routing.Event
import MarkupRouting.Routing.FileName
import MarkupRouting.Routing.Frame
import MarkupRouting.Settings

/-!
# Faults

Everything that can go wrong on the way from a document to the handlers, and how it is put into
words.

* **Phase**, **Request** — when a handler is called, and what it may ask of its dispatcher.
* **Thrown** — the kinds of faults that handlers and sources raise of themselves; **Thrown.text?**
  is such a fault as text, where it has one.
* **Fault** — a fault by its cause.
* **Fault.kind**, **Fault.message** — the name of its kind, and its words where it has words of its
  own; **Fault.mute?** is what comes of asking a fault for words that it cannot give.
* **Fault.path?** — the path that a fault knows of itself.
* **Fault.toTable** — a fault as named values.
-/

namespace MarkupRouting

/-- When a handler is called. -/
inductive Phase where
  /-- When an element is entered. -/
  | opening
  /-- When an element is left. -/
  | closing
  deriving DecidableEq, Repr, Inhabited

/-- The name of a phase in messages. -/
def Phase.name : Phase → String
  | opening => "open"
  | closing => "close"

/-- What a handler may ask of the dispatcher it runs under. -/
inductive Request where
  /-- To drive another document. -/
  | drive
  /-- To register a rule. -/
  | register
  deriving DecidableEq, Repr

/-- How a request is refused. -/
def Request.refusal : Request → String
  | drive => "drive() cannot be re-entered from a handler"
  | register => "Rules cannot be registered while driving"

/-- The kinds of faults that handlers and sources raise of themselves. -/
inductive Thrown where
  | value
  | key
  | type
  | runtime
  | index
  | plain
  | rules
  | stop
  deriving DecidableEq, Repr, Inhabited

namespace Thrown

/-- The name of the kind. -/
def name : Thrown → String
  | value => "ValueError"
  | key => "KeyError"
  | type => "TypeError"
  | runtime => "RuntimeError"
  | index => "IndexError"
  | plain => "Exception"
  | rules => "XMLRulesError"
  | stop => "StopProcessing"

/-- All kinds. -/
def all : List Thrown := [value, key, type, runtime, index, plain, rules, stop]

/-- The kind of a given name. -/
def ofName? (n : String) : Option Thrown := all.find? (fun k => k.name == n)

/-- A fault of this kind as text: the words it was raised with, as they are written in messages
where they are the name of what was looked for. There is no text where they cannot be written. -/
def text? (k : Thrown) (words : Value) : Option String :=
  if words.isWritable then
    match k with
    | key => some words.quoted
    | _ => some words.shown
  else none

end Thrown

/-! ## Words -/

/-- What is said of something that is no pattern (`InvalidPatternError.__init__`). -/
def patternText (source : Value) (reason : String) : String :=
  "Invalid pattern " ++ source.quoted ++ ": " ++ reason

/-- What is said of a malformed document (`MalformedInputError.__init__`): the reason, and the place
where one is known. -/
def malformedText (reason : String) (line column : Value) : String :=
  match line with
  | .null => reason
  | line => reason ++ " (line " ++ line.shown ++ ", column " ++ column.shown ++ ")"

/-- What is said of a handler that failed (`HandlerError.__init__`): where, and with what. -/
def handlerText (phase : String) (pattern : Value) (path kind text : String) : String :=
  phase ++ " handler for pattern " ++ pattern.quoted ++ " failed at " ++ path ++ ": " ++ kind
    ++ ": " ++ text

/-! ## Causes -/

/-- A fault by its cause. -/
inductive Fault where
  /-- Raised by a handler or a source of itself. -/
  | thrown (kind : Thrown) (words : Value)
  /-- Raised by a handler or a source of itself, of a kind made for the purpose: what it says, and
  what it has for a path if it has anything. -/
  | foreign (kind text : String) (path : Option Value)
  /-- Another one of that sort, which fails with `failure` when it is asked what it says. -/
  | mute (kind : String) (path : Option Value) (failure : Fault)
  /-- An integer is too long to be written in a message. -/
  | tooLong
  /-- A rule cannot be registered. -/
  | rule (flaw : Rule.Flaw)
  /-- There is nothing at a node, or no node. -/
  | node (flaw : Node.Flaw)
  /-- There is no event. -/
  | event (flaw : Event.Flaw)
  /-- A node is not taken in. -/
  | frame (flaw : Frame.Flaw)
  /-- Nothing can be driven from a source of the given type. -/
  | sourceType (name : String)
  /-- What came from the source is no event but of the given type. -/
  | eventType (name : String)
  /-- No document can be read from an input of the given type. -/
  | inputType (name : String)
  /-- What should be a document in memory is something else. -/
  | notDocument
  /-- The size of chunks is not above zero. -/
  | chunkSize
  /-- A size is no integer. -/
  | notInteger
  /-- A size is too large to be asked for. -/
  | tooLarge
  /-- There is not enough memory for what is asked for. -/
  | noMemory
  /-- An element is left while none is open. -/
  | nothingOpen
  /-- The document was empty: no chunk of it was ever read. -/
  | emptyDocument
  /-- The document is not well-formed. -/
  | malformed
  /-- A name begins with a namespace that does not end. -/
  | openNamespace
  /-- A document is opened with an option of an unknown name. -/
  | unknownOption
  /-- What should be the name of a file is something else. -/
  | notFileName
  /-- A file to be read is not there. -/
  | noFile (obstacle : FileName.Obstacle)
  /-- A file to be processed, of the given name, is not there. -/
  | fileNotFound (name : String)
  /-- A value that cannot be a name in a mapping stands where one is needed. -/
  | notKey
  /-- There is no path, because an element has a name that is no text. -/
  | noPath
  /-- Texts cannot be put together, because one of them is no text. -/
  | notText
  /-- Something is asked of a value that no value of its type does. -/
  | notCapable
  /-- Something is looked up in a value that has no parts. -/
  | noParts
  /-- Something is looked up under a name that is not known. -/
  | unknownName
  /-- A request was made of the dispatcher by a handler that runs under it. -/
  | reentrant (request : Request)
  /-- A handler failed with another fault. -/
  | handler (cause : Fault) (path element pattern : String) (phase : Phase)
  deriving Repr

namespace Fault

/-- The name of the fault's kind. -/
def kind : Fault → String
  | thrown k _ => k.name
  | foreign k _ _ | mute k _ _ => k
  | tooLong => "ValueError"
  | rule (.pattern _ .unwritable) => "ValueError"
  | rule (.pattern _ _) => "InvalidPatternError"
  | rule (.handling .noHandler) => "ValueError"
  | rule (.handling (.unknownMode _)) => "ValueError"
  | rule (.handling _) => "TypeError"
  | node (.noChild _ _) => "KeyError"
  | node .notNode | node .notNumber => "TypeError"
  | node _ => "ValueError"
  | event .notNumber => "TypeError"
  | event _ => "ValueError"
  | frame _ => "ValueError"
  | sourceType _ | eventType _ | inputType _ | notDocument | notInteger => "TypeError"
  | unknownOption | notFileName | notKey | noPath | notText | noParts => "TypeError"
  | notCapable => "AttributeError"
  | unknownName => "KeyError"
  | chunkSize => "ValueError"
  | tooLarge => "OverflowError"
  | noMemory => "MemoryError"
  | nothingOpen | openNamespace => "IndexError"
  | emptyDocument | malformed => "MalformedInputError"
  | noFile .missing | fileNotFound _ => "FileNotFoundError"
  | noFile .tooLong => "OSError"
  | noFile .zeroCharacter => "ValueError"
  | noFile .directory => "IsADirectoryError"
  | reentrant _ => "ReentrantDriveError"
  | handler _ _ _ _ _ => "HandlerError"

/-- The fault in words; none where it has no words of its own. A name that was looked for and not
found is quoted. -/
def message : Fault → Option String
  | thrown k words => k.text? words
  | foreign _ text _ => some text
  | mute _ _ _ | tooLong => none
  | rule (.pattern source flaw) => flaw.reason?.map (patternText source)
  | rule (.handling flaw) => flaw.message
  | node (.noChild path key) => (Node.Flaw.noChild path key).message.map Text.quoted
  | node flaw => flaw.message
  | event flaw => flaw.message
  | frame flaw => some flaw.message
  | sourceType name => some ("Unsupported source type " ++ name)
  | eventType name => some ("Unsupported event type " ++ name)
  | inputType name =>
    some ("Unsupported input type " ++ name ++ "; expected str, bytes, Path or a file object")
  | notDocument => some "xml_string must be str or bytes"
  | chunkSize => some "chunk_size must be > 0"
  | emptyDocument => some "Document is empty"
  | notInteger | tooLarge | noMemory | nothingOpen | malformed | noFile _ => none
  | openNamespace | unknownOption | notFileName | notKey | noPath | notText => none
  | notCapable | noParts | unknownName => none
  | fileNotFound name => some ("XML file not found: " ++ name)
  | reentrant request => some request.refusal
  | handler cause path _ pattern phase =>
    cause.message.map (handlerText phase.name (.text pattern) path cause.kind)

/-- The path that the fault knows of itself: that of a failed handler does, and one that a handler
or a source raised may. -/
def path? : Fault → Option Value
  | handler _ path _ _ _ => some (.text path)
  | foreign _ _ path | mute _ path _ => path
  | _ => none

/-- What comes of asking a fault for its words where it cannot give them. Whoever puts a fault into
words of his own asks for them first. -/
def mute? : Fault → Option Fault
  | thrown _ words => if words.isWritable then none else some tooLong
  | mute _ _ failure => some failure
  | _ => none

/-- The fault is that of a handler that failed. -/
def isHandler : Fault → Bool
  | handler _ _ _ _ _ => true
  | _ => false

/-- What a fault knows besides its words. -/
def more : Fault → Table Value
  | rule (.pattern _ flaw) => (flaw.reason?.map fun reason => ("reason", Value.text reason)).toList
  | handler _ path element pattern phase =>
    [("path", .text path), ("element", .text element), ("pattern", .text pattern),
      ("phase", .text phase.name)]
  | _ => []

/-- The fault as named values: its kind, its words where it has any, and what else it knows; that of
a failed handler comes with the one it failed with. -/
def toTable (f : Fault) : Table Value :=
  ("error", .text f.kind) :: (f.message.map (fun m => ("message", Value.text m))).toList ++ f.more
    ++ match f with
      | handler cause _ _ _ _ => [("original", .record cause.toTable)]
      | _ => []

/-- The fault asks for the drive to be stopped. -/
def isStop : Fault → Bool
  | thrown .stop _ => true
  | _ => false

end Fault

end MarkupRouting
