import MarkupRouting.Markup.Attributes

/-!
# The declaration at the start of a document

A document may begin by saying which version of the markup it uses, how it is encoded and whether it
stands alone.

* **Declaration.read** — a declaration from the characters behind its opening word.
* **Declaration.fits** — no part of it is too long.
-/

namespace MarkupRouting.Markup

/-- What a document says of itself. -/
structure Declaration where
  /-- The version of the markup. -/
  version : String
  /-- The name of the encoding. -/
  encoding : Option String
  /-- The document stands alone. -/
  standalone : Option Bool
  deriving DecidableEq, Repr

namespace Declaration

/-- The characters are a version of the markup that can be read: one, a point and digits. -/
def isVersion : List Char → Bool
  | '1' :: '.' :: digits => digits.all Char.isDigit
  | _ => false

/-- The characters are the name of an encoding. -/
def isEncoding : List Char → Bool
  | [] => false
  | c :: rest =>
    c.isAlpha && rest.all (fun d => d.isAlphanum || d == '.' || d == '_' || d == '-')

/-- A declaration with something said of standing alone, or nothing. -/
def withStandalone (d : Declaration) : List (String × List Char) → Option Declaration
  | [] => some d
  | [("standalone", ['y', 'e', 's'])] => some { d with standalone := some true }
  | [("standalone", ['n', 'o'])] => some { d with standalone := some false }
  | _ => none

/-- A declaration with something said of the encoding, or nothing. -/
def withEncoding (d : Declaration) : List (String × List Char) → Option Declaration
  | ("encoding", name) :: rest =>
    if isEncoding name then withStandalone { d with encoding := some (String.ofList name) } rest
    else none
  | rest => withStandalone d rest

/-- A declaration from the characters behind its opening word. -/
def read (cs : List Char) : Option Declaration := do
  let written ← fields cs
  match written.map (fun (key, value) => (String.ofList key, value)) with
  | ("version", version) :: rest =>
    if isVersion version then withEncoding ⟨String.ofList version, none, none⟩ rest else none
  | _ => none

/-- What is said of the version and of the encoding takes fewer bytes than the limit. -/
def fits (limit : Nat) (d : Declaration) : Bool :=
  d.version.utf8ByteSize < limit && (d.encoding.getD "").utf8ByteSize < limit

end Declaration

end MarkupRouting.Markup
