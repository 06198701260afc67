import MarkupRouting.Json.Reader
import MarkupRouting.Json.Writer
import MarkupRouting.Log
import MarkupRouting.Rule.Handling

/-!
# Settings

What a dispatcher is told about reading documents, normalising text, sampling and logging. Settings
are made from named values and checked whenever they are made; the checks are few, so that most
fields hold whatever value they were given.

* **Settings** — the nine fields.
* **Settings.make** — settings from some of the fields, the others at their defaults.
* **Settings.override** — settings with some fields changed.
* **Settings.toTable**, **ofTable** — settings as named values and back.
* **Settings.toJson**, **ofJson** — the same through JSON text.
* **Settings.streaming**, **debugging** — two presets.
-/

namespace MarkupRouting

/-- What a dispatcher is told about its work (`DispatchConfig`). -/
structure Settings where
  /-- The text mode of rules that name none. -/
  defaultMode : TextMode := .normalize
  /-- Names lose the namespace they are in. -/
  stripNamespaces : Value := .bool true
  /-- How much of a document is read at a time. -/
  chunkSize : Value := .int 65536
  /-- References to the ampersand are resolved in attribute values. -/
  resolveEntities : Value := .bool false
  /-- Documents may be larger than is usual. -/
  hugeTree : Value := .bool false
  /-- Resident memory is sampled. -/
  trackMemory : Value := .bool false
  /-- How many events lie between two samples. -/
  sampleInterval : Value := .int 10000
  /-- From which level on records are asked for. -/
  loggingLevel : Log.Level := .info
  /-- The identity of runs; a run without one gets a new one. -/
  correlation : Value := .null
  deriving Repr, Inhabited

namespace Settings

/-- Why there are no settings (`ConfigValidationError`). -/
inductive Flaw where
  /-- There is no text mode of that kind. -/
  | unknownMode (given : String)
  /-- The chunk size is not above zero. -/
  | chunkSize
  /-- The sampling interval is not above zero. -/
  | sampleInterval
  /-- There is no such logging level. -/
  | loggingLevel
  /-- There are no fields of the given names. -/
  | unknownFields (names : List String)
  /-- A value that should be a number is none. -/
  | notNumber
  /-- What is given are no named values, or not ones that can be given there. -/
  | unexpected
  /-- There is no value in the text, or no text for the value. -/
  | json (flaw : Json.Flaw)
  /-- There is no text with such an indentation. -/
  | indent (flaw : Json.Layout.Flaw)
  deriving DecidableEq, Repr

/-- The names of the fields in order. -/
def fieldNames : List String :=
  ["default_whitespace", "strip_namespaces", "chunk_size", "resolve_entities", "huge_tree",
    "track_memory", "memory_sample_interval", "logging_level", "correlation_id"]

/-- The names of the fields in increasing order. -/
def sortedNames : List String := fieldNames.mergeSort (fun a b => a ≤ b)

/-- The names of all logging levels. -/
def levelNames : List String := Log.Level.all.map Log.Level.name

/-- The flaw in words; none where it has no words of its own. -/
def Flaw.message : Flaw → Option String
  | unknownMode given => some (TextMode.unknownMessage given)
  | chunkSize => some "chunk_size must be > 0"
  | sampleInterval => some "memory_sample_interval must be > 0"
  | loggingLevel => some ("logging_level must be one of " ++ Value.quotedTexts levelNames)
  | unknownFields names => some ("Unknown configuration fields: " ++ Value.quotedTexts names)
  | notNumber | unexpected | json _ | indent _ => none

/-- The field that is at fault; the first one where several are. -/
def Flaw.field? : Flaw → Option String
  | unknownMode _ => some "default_whitespace"
  | chunkSize => some "chunk_size"
  | sampleInterval => some "memory_sample_interval"
  | loggingLevel => some "logging_level"
  | unknownFields names => names.head?
  | notNumber | unexpected | json _ | indent _ => none

/-- What could have been given instead. -/
def Flaw.suggestions : Flaw → List String
  | loggingLevel => levelNames
  | unknownFields _ => sortedNames
  | _ => []

/-- The name of the flaw's kind. -/
def Flaw.kind : Flaw → String
  | notNumber | unexpected | indent .notInteger => "TypeError"
  | json .malformed => "JSONDecodeError"
  | json .tooDeep => "RecursionError"
  | json .tooLong => "ValueError"
  | indent .tooLarge => "OverflowError"
  | indent .noMemory => "MemoryError"
  | _ => "ConfigValidationError"

/-- The flaw as named values: its kind, and where it has words of its own, these with the field at
fault and what could have been given instead. -/
def Flaw.toTable (flaw : Flaw) : Table Value :=
  ("error", .text flaw.kind) :: match flaw.message with
    | none => []
    | some words =>
      [("message", .text words), ("field", Value.ofText? flaw.field?),
        ("suggestions", .list (flaw.suggestions.map .text))]

/-! ## Settings as named values -/

/-- The settings as named values; the text mode is a mode. -/
def fields (s : Settings) : Table Value :=
  [("default_whitespace", .mode s.defaultMode), ("strip_namespaces", s.stripNamespaces),
    ("chunk_size", s.chunkSize), ("resolve_entities", s.resolveEntities),
    ("huge_tree", s.hugeTree), ("track_memory", s.trackMemory),
    ("memory_sample_interval", s.sampleInterval),
    ("logging_level", .text s.loggingLevel.name), ("correlation_id", s.correlation)]

/-- A value in which a text mode is written as its word. -/
def plain : Value → Value
  | .mode m => .text m.word
  | v => v

/-- The settings as plain named values (`to_dict`). -/
def toTable (s : Settings) : Table Value := s.fields.map (fun (name, v) => (name, plain v))

/-- A number that has to be above zero. -/
def positive (flaw : Flaw) (v : Value) : Except Flaw Value :=
  match v.atMostZero? with
  | none => .error .notNumber
  | some true => .error flaw
  | some false => .ok v

/-- The settings that named values describe, one for each field (`DispatchConfig.__post_init__`).
The fields are checked in order. -/
def check (t : Table Value) : Except Flaw Settings := do
  let field := fun (name : String) => (t.get? name).getD .null
  let given := field "default_whitespace"
  let defaultMode ← match TextMode.ofValue? given with
    | some m => .ok m
    | none => .error (.unknownMode given.quoted)
  let chunkSize ← positive .chunkSize (field "chunk_size")
  let sampleInterval ← positive .sampleInterval (field "memory_sample_interval")
  let loggingLevel ← match (field "logging_level").toText?.bind Log.Level.ofName? with
    | some l => .ok l
    | none => .error .loggingLevel
  return {
    defaultMode
    stripNamespaces := field "strip_namespaces"
    chunkSize
    resolveEntities := field "resolve_entities"
    hugeTree := field "huge_tree"
    trackMemory := field "track_memory"
    sampleInterval
    loggingLevel
    correlation := field "correlation_id" }

/-- The names among the given ones that are no fields, in increasing order. -/
def unknownNames (changes : Table Value) : List String :=
  (changes.keys.filter (fun n => !fieldNames.contains n)).mergeSort (fun a b => a ≤ b)

/-- The settings with some fields changed (`override`). -/
def override (s : Settings) (changes : Table Value) : Except Flaw Settings :=
  if changes.keys.contains "self" then .error .unexpected
  else
    let unknown := unknownNames changes
    if unknown.isEmpty then check (s.fields.update changes) else .error (.unknownFields unknown)

/-- Settings made directly from some of the fields: other names are refused
without a word. -/
def make (given : Table Value) : Except Flaw Settings :=
  if (unknownNames given).isEmpty then check (Table.update ({} : Settings).fields given)
  else .error .unexpected

/-- The settings that plain named values describe, other fields at their defaults (`from_dict`). -/
def ofTable (t : Table Value) : Except Flaw Settings := ({} : Settings).override t

/-- The settings that an untyped value describes, which has to be a record. -/
def ofValue : Value → Except Flaw Settings
  | .record t => ofTable t
  | _ => .error .unexpected

/-! ## Settings as JSON -/

/-- The settings as JSON text. -/
def toJson (s : Settings) (layout : Json.Layout) : String := Json.write layout (.record s.toTable)

/-- The settings as JSON text with an indentation, or why there is no such text (`to_json`). -/
def toIndented (s : Settings) (desk : Json.Desk) (indent : Value) : Except Flaw String :=
  match Json.Layout.ofIndent desk.memory indent with
  | .error flaw => .error (.indent flaw)
  | .ok layout =>
    match Json.beyond? desk.limits (.record s.toTable) with
    | some flaw => .error (.json flaw)
    | none => .ok (s.toJson layout)

/-- How deep lists and records may nest in a JSON text with settings, and how long its integers may
be. -/
def jsonLimits : Json.Limits := ⟨990, Value.digitLimit⟩

/-- The settings that a JSON text describes (`from_json`). -/
def ofJson (text : String) : Except Flaw Settings :=
  match Json.readWithin jsonLimits text with
  | .ok v => ofValue v
  | .error flaw => .error (.json flaw)

/-- Two settings are equal field by field. -/
def alike (a b : Settings) : Bool := Value.alike (.record a.fields) (.record b.fields)

/-! ## Presets -/

/-- For very large documents (`streaming`): big chunks, and memory is sampled. -/
def streaming : Settings :=
  { chunkSize := .int 1048576, hugeTree := .bool true, trackMemory := .bool true }

/-- For looking closely (`debugging`): text is left as it is, and every element is reported. -/
def debugging : Settings :=
  { defaultMode := .keep, chunkSize := .int 1024, loggingLevel := .debug }

end Settings

end MarkupRouting
