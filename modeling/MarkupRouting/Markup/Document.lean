import MarkupRouting.Markup.Tokenizer
import MarkupRouting.Routing.Source
import MarkupRouting.Settings

/-!
# Documents as feeds

A document is read in pieces, each piece goes through a tokenizer, and what the tokenizer reports of
it is handed out as events before the next piece is read.

* **Document.Options** — how much is read at a time, and how names and references are delivered.
* **Document.localName?** — a name without its namespace.
* **Document.eventOf** — the event for a report.
* **Document.pieces**, **chunks** — the pieces of a source.
* **Document.feed**, **Document.open?** — the events of a source.
-/

namespace MarkupRouting.Document

open Markup

/-- How a document is read. -/
structure Options where
  /-- How much is read at a time: characters of a text, bytes of anything else. -/
  chunkSize : Value := .int 65536
  /-- Names lose the namespace they are in. -/
  strip : Bool := true
  /-- References to the ampersand are resolved in attribute values. -/
  resolve : Bool := false
  /-- The document may be larger than is usual. -/
  huge : Bool := false
  /-- The identity of the run. -/
  correlation : Value := .null
  deriving Repr, Inhabited

namespace Options

/-- The options with one more named value set. -/
def set (o : Options) (name : String) (v : Value) : Except Fault Options :=
  match name with
  | "chunk_size" => .ok { o with chunkSize := v }
  | "strip_namespaces" => .ok { o with strip := v.isTruthy }
  | "resolve_entities" => .ok { o with resolve := v.isTruthy }
  | "huge_tree" => .ok { o with huge := v.isTruthy }
  | "correlation_id" => .ok { o with correlation := v }
  | _ => .error .unknownOption

/-- The options with the given named values and the usual ones elsewhere. -/
def ofFields (fields : Table Value) : Except Fault Options :=
  fields.foldlM (fun o (name, v) => o.set name v) {}

/-- The options that settings ask for. -/
def ofSettings (s : Settings) (correlation : Value) : Options :=
  { chunkSize := s.chunkSize
    strip := s.stripNamespaces.isTruthy
    resolve := s.resolveEntities.isTruthy
    huge := s.hugeTree.isTruthy
    correlation }

end Options

/-! ## Events -/

/-- A name without the namespace in braces in front of it (`local_name`); nothing where the braces
are not closed. -/
def localName? (name : String) : Option String :=
  match name.toList with
  | '\x7b' :: rest =>
    match rest.dropWhile (· != '\x7d') with
    | [] => none
    | _ :: base => some (String.ofList base)
  | _ => some name

/-- A name as it is delivered (`_EventCollector._name`). -/
def deliveredName (strip : Bool) (name : String) : Except Fault String :=
  if strip then
    match localName? name with
    | some name => .ok name
    | none => .error .openNamespace
  else .ok name

/-- An attribute as it is delivered. -/
def deliveredAttribute (strip : Bool) (a : String × String) : Except Fault (String × String) :=
  (deliveredName strip a.1).map (fun name => (name, a.2))

/-- Attributes as they are delivered: of several with one name the first place and the last value
count. -/
def deliveredAttributes (strip : Bool) (attributes : List (String × String)) :
    Except Fault (Table String) :=
  (attributes.mapM (deliveredAttribute strip)).map Table.ofPairs

/-- An event that was checked. -/
def checked (e : Except Event.Flaw Event) : Except Fault Event := e.mapError .event

/-- The event for a report, and how many elements are open behind it, when so many are open in front
of it (`_EventCollector`). -/
def eventOf (strip : Bool) (depth : Nat) : Mark → Except Fault (Event × Nat)
  | .start name attributes => do
    let attributes := (← deliveredAttributes strip attributes).map (fun (key, s) => (key, .text s))
    let name ← deliveredName strip name
    let e ← checked (Event.opened? (.text name) attributes (.int (depth + 1)))
    return (e, depth + 1)
  | .finish name => do
    let name ← deliveredName strip name
    let e ← checked (Event.closed? (.text name) (.int depth))
    return (e, depth - 1)
  | .data s => .ok (.text s depth, depth)

/-- The events for several reports, and how many elements are open behind them; `sofar` are the
events that came before, the last one first. -/
def eventsOf (strip : Bool) (depth : Nat) (sofar : List Event) :
    List Mark → Except Fault (List Event × Nat)
  | [] => .ok (sofar.reverse, depth)
  | m :: rest =>
    match eventOf strip depth m with
    | .ok (e, depth) => eventsOf strip depth (e :: sofar) rest
    | .error fault => .error fault

/-! ## Pieces -/

/-- A list in pieces of the given length, the last one of which may be shorter; a piece is never
empty. -/
def pieces {α : Type} (size : Nat) : List α → List (List α)
  | [] => []
  | x :: rest => (x :: rest.take (size - 1)) :: pieces size (rest.drop (size - 1))
termination_by xs => xs.length
decreasing_by simp only [List.length_drop, List.length_cons]; omega

/-- The bytes of characters. -/
def encode (cs : List Char) : List UInt8 := cs.flatMap String.utf8EncodeChar

/-- A text in pieces of so many characters, each by its bytes (`_chunks`). -/
def textPieces (size : Nat) (s : String) : List (List UInt8) := (pieces size s.toList).map encode

/-- The size of the pieces in which a source is read. It has to be an integer, and so much has to be
there to be asked for. -/
def pieceSize (s : Source) (size : Value) : Except Fault Nat :=
  match size.toInt? with
  | none => .error .notInteger
  | some n =>
    match s.reach n.toNat with
    | some fault => .error fault
    | none => .ok n.toNat

/-- The bytes of a source are known to be UTF-8, because it is given by its characters. -/
def isText : Source → Bool
  | .text _ | .textStream _ _ => true
  | _ => false

/-- The pieces in which a source is read (`_chunks`). -/
def chunks (size : Value) (s : Source) : Except Fault (List (List UInt8)) :=
  match s with
  | .text doc | .textStream doc _ => (pieceSize s size).map (textPieces · doc)
  | .bytes bs => (pieceSize s size).map (pieces · bs)
  | .byteStream f | .file _ (some f) => (pieceSize s size).map (pieces · f.contents)
  | .file name none => .error (.noFile (FileName.obstacle name))
  | s => .error (.inputType s.typeName)

/-! ## Feeds -/

/-- The record made when a document was read to its end. -/
def exhausted (correlation : Value) (fed : Nat) : Log.Record :=
  (Log.Logger.ofPart "xml_event_source" correlation).record .debug "Event source exhausted"
    [("chunks_fed", .value (.int fed))]

/-- The record made when a document was refused. -/
def rejected (correlation : Value) (fed : Nat) : Log.Record :=
  (Log.Logger.ofPart "xml_event_source" correlation).record .debug "Tokenizer rejected input"
    [("chunks_fed", .value (.int fed))]

/-- What is handed out where a document is refused after so many pieces. -/
def refusedAfter (correlation : Value) (fed : Nat) : Feed :=
  .note (rejected correlation fed) (.fault .malformed)

/-- What was read, the last piece first, in front of what comes then. -/
def behind (read : List (List UInt8 × List Event)) (rest : Feed) : Feed :=
  read.foldl (fun rest (chunk, events) => .read chunk (.afterEvents events rest)) rest

/-- The feed of a document whose remaining pieces are given; `read` is what was read so far, the
last piece first. Of a piece that is refused no event is handed out. -/
def feedFrom (t : Tokenizer) (o : Options) (state : t.State) (depth : Nat)
    (read : List (List UInt8 × List Event)) : List (List UInt8) → Feed
  | [] =>
    match t.finish state with
    | none => behind read (refusedAfter o.correlation read.length)
    | some marks =>
      match eventsOf o.strip depth [] marks with
      | .error fault => behind read (.fault fault)
      | .ok (events, _) =>
        behind read (.afterEvents events (.note (exhausted o.correlation read.length) .done))
  | chunk :: rest =>
    match t.feed state chunk with
    | none => behind read (.read chunk (refusedAfter o.correlation read.length))
    | some (marks, state) =>
      match eventsOf o.strip depth [] marks with
      | .error fault => behind read (.read chunk (.fault fault))
      | .ok (events, depth) => feedFrom t o state depth ((chunk, events) :: read) rest

/-- The feed of a document given by its pieces, of which there has to be one (`_events`). -/
def feedOf (t : Tokenizer) (o : Options) (isUtf8 : Bool) (cs : List (List UInt8)) : Feed :=
  if cs.isEmpty then .fault .emptyDocument
  else feedFrom t o (t.start { isUtf8, resolve := o.resolve, huge := o.huge }) 0 [] cs

/-- The events of a source (`XMLEventSource.__iter__`). What is wrong with the source shows when the
first event is asked for. -/
def feed (t : Tokenizer) (o : Options) (s : Source) : Feed :=
  match chunks o.chunkSize s with
  | .error fault => .fault fault
  | .ok cs => feedOf t o (isText s) cs

/-- A source opened as a document (`XMLEventSource.__init__`). What is wrong with the size of the
pieces shows at once, as far as it does not have to be an integer. -/
def open? (t : Tokenizer) (o : Options) (s : Source) : Except Fault Feed :=
  match o.chunkSize.atMostZero? with
  | none => .error .notInteger
  | some true => .error .chunkSize
  | some false => .ok (feed t o s)

end MarkupRouting.Document
