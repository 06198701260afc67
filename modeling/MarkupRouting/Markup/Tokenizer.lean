/-!
# Tokenizers

What turns the bytes of a document into reports of where elements begin and end and what text there
is. Bytes are handed over in pieces.

* **Mark** — one report.
* **Tokenizer** — its states, the state before the first piece, one piece more, and the end.
-/

namespace MarkupRouting.Markup

/-- What a tokenizer reports. -/
inductive Mark where
  /-- An element begins. -/
  | start (name : String) (attributes : List (String × String))
  /-- An element ends. -/
  | finish (name : String)
  /-- A text, or a part of one. -/
  | data (s : String)
  deriving DecidableEq, Repr, Inhabited

/-- What a tokenizer is told before the first piece. -/
structure Tokenizer.Options where
  /-- The bytes are known to be UTF-8, whatever the document says. -/
  isUtf8 : Bool
  /-- References to the ampersand are resolved in attribute values. -/
  resolve : Bool
  /-- The document may be larger than is usual. -/
  huge : Bool
  deriving DecidableEq, Repr, Inhabited

/-- What turns the bytes of a document into reports. -/
structure Tokenizer where
  /-- What is known between two pieces. -/
  State : Type
  /-- Before the first piece. -/
  start : Tokenizer.Options → State
  /-- One piece more, with what is reported of it; nothing where it is refused. -/
  feed : State → List UInt8 → Option (List Mark × State)
  /-- What is reported at the end; nothing where the document is refused. -/
  finish : State → Option (List Mark)

end MarkupRouting.Markup
