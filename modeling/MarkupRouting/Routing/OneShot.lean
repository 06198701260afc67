import MarkupRouting.Routing.Dispatcher

/-!
# Driving a single source

One source is driven through given rules by a dispatcher made for the purpose.

* **Task** — rules and settings, with what the handlers do and what is taken from the world outside.
* **process** — drives any source.
* **processText** — drives a document in memory only.
* **processFile** — drives a document in a file, given by name or as a file.
-/

namespace MarkupRouting

/-- What a single source is driven through. -/
structure Task (H σ : Type) where
  /-- The rules by pattern. -/
  rules : Mapping (Offer H)
  /-- The settings, where they are not the usual ones. -/
  settings : Option Settings
  /-- What the handlers do. -/
  behavior : Behavior H σ
  /-- What turns documents into reports. -/
  tokenizer : Markup.Tokenizer
  /-- What is taken from the world outside. -/
  around : Surroundings
  /-- What the handlers keep at the start. -/
  world : σ

namespace Task

variable {H σ : Type}

/-- The outcome of a drive that did not begin. -/
def refused (t : Task H σ) (fault : Fault) : Outcome H σ :=
  { result := .error fault, world := t.world }

/-- Drives any source through the rules (`process`). -/
def process (t : Task H σ) (s : Source) : Outcome H σ :=
  match Dispatcher.make (t.settings.getD {}) t.rules with
  | (records, .error fault) => (t.refused fault).after records
  | (records, .ok d) => (d.drive t.behavior t.tokenizer t.around s t.world).1.after records

/-- How much of a document is shown when it is recorded. -/
def previewLength : Nat := 100

/-- The record of a document in memory. -/
def documentRecord (t : Task H σ) (length : Nat) (preview : Log.Detail) : Log.Record :=
  let correlation := match t.settings with
    | some s => s.correlation
    | none => .null
  (Log.Logger.ofPart "process_string" correlation).record .debug "Processing string input"
    [("content_length", .value (.int length)), ("preview", preview)]

/-- Drives a document in memory through the rules (`process_string`). -/
def processText (t : Task H σ) (s : Source) : Outcome H σ :=
  match s with
  | .text doc =>
    (t.process s).after
      [t.documentRecord doc.length
        (.value (.text (String.ofList (doc.toList.take previewLength))))]
  | .bytes bs =>
    (t.process s).after [t.documentRecord bs.length (.bytes (bs.take previewLength))]
  | _ => t.refused .notDocument

end Task

/-- What is said of a file to be processed that is not there. A name too long is not looked for. -/
def fileFault (name : String) : Fault :=
  match FileName.obstacle name with
  | .tooLong => .noFile .tooLong
  | _ => .fileNotFound (FileName.plain name)

/-- Drives a document in a file through the rules (`process_file`). The file may be given by its
name, under which `find` looks for it. -/
def Task.processFile {H σ : Type} (t : Task H σ) (find : String → Option File) (s : Source) :
    Outcome H σ :=
  match s with
  | .text name =>
    match find name with
    | some f => t.process (.file name (some f))
    | none => t.refused (fileFault name)
  | .file name (some f) => t.process (.file name (some f))
  | .file name none => t.refused (fileFault name)
  | _ => t.refused .notFileName

/-- The rules of a dispatcher made for the purpose, as named values (`describe_rules`). -/
def describeRules {H : Type} (settings : Option Settings) (rules : Mapping (Offer H)) :
    Except Fault (List (Table Value)) :=
  (Dispatcher.make (settings.getD {}) rules).2.map (fun d => d.book.describe)

end MarkupRouting
