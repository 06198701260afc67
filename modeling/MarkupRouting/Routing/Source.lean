import MarkupRouting.Routing.Feed

/-!
# Sources

What can be driven: a document in one of several forms, or anything that hands out items.

* **Reach** — how much an open file can be asked for at a time; **File** — a file with what is in
  it.
* **Source** — the forms; **Source.typeName** names the form in messages.
* **Source.ofValue** — an untyped value as a source.
* **Source.isDocument** — the source is a document that has to be read; **Source.reach** — how much
  of it can be asked for at a time.
-/

namespace MarkupRouting

/-- How much an open file can be asked for at a time: the fault with which a file that is asked for
so many bytes or characters fails, or nothing where it hands out that many, or all that are left.
This is a matter of the file and of the machine. -/
abbrev Reach := Nat → Option Fault

/-- The sizes are machine numbers, and there is room for each of them: an open file that is in
memory hands out what it has. -/
def Reach.ofNumbers : Reach := fun n => if n < Nat.pow 2 63 then none else some .tooLarge

/-- The sizes are machine numbers, and room is made for as many bytes as are asked for, and for what
comes with them, before anything is read. -/
def Reach.ofMemory (memory : Nat → Bool) : Reach := fun n =>
  if Nat.pow 2 63 ≤ n + 33 then some .tooLarge else if memory n then none else some .noMemory

/-- A file that can be opened. -/
structure File where
  /-- What is in it. -/
  contents : List UInt8
  /-- How much it can be asked for at a time. -/
  reach : Reach

/-- What can be driven. -/
inductive Source where
  /-- A document in memory, by its characters. -/
  | text (s : String)
  /-- A document in memory, by its bytes. -/
  | bytes (bs : List UInt8)
  /-- A document in a file of the given name, if there is one. -/
  | file (name : String) (found : Option File)
  /-- An open file that is read by bytes. -/
  | byteStream (f : File)
  /-- An open file that is read by characters. -/
  | textStream (s : String) (reach : Reach)
  /-- Something of the given type that hands out items, and that may have to be closed. -/
  | items (typeName : String) (feed : Feed) (closable : Bool)
  /-- Anything else. -/
  | other (v : Value)

namespace Source

/-- The name of the source's type in messages. -/
def typeName : Source → String
  | text _ => "str"
  | bytes _ => "bytes"
  | file _ _ => "PosixPath"
  | byteStream _ => "BytesIO"
  | textStream _ _ => "StringIO"
  | items name _ _ => name
  | other v => v.typeName

/-- An untyped value as a source: a text is a document, a list hands out its items and a record the
names of its fields, none of which are events. -/
def ofValue (v : Value) : Source :=
  match v with
  | .text s => text s
  | .list vs => items v.typeName (.ofItems (vs.map (fun i => .foreign i.typeName))) false
  | .record fields =>
    items v.typeName (.ofItems (fields.map (fun (n, _) => .foreign (Value.text n).typeName))) false
  | v => other v

/-- How much can be asked of the source at a time; of a document in memory that is any number of
characters or bytes. -/
def reach : Source → Reach
  | file _ (some f) | byteStream f => f.reach
  | textStream _ reach => reach
  | _ => fun _ => none

/-- The source is a document that has to be read. -/
def isDocument : Source → Bool
  | text _ | bytes _ | file _ _ | byteStream _ | textStream _ _ => true
  | items _ _ _ | other _ => false

end Source

end MarkupRouting
