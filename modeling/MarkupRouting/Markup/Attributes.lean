import MarkupRouting.Markup.Reference

/-!
# Attributes

The inside of a start tag: a name, and named values between quotes, set apart by space.

* **Spot**, **Spot.step** — where in a start tag a character stands, as far as the next one depends
  on it.
* **StartTag.read** — the name, the named values as written, and whether the element is empty.
* **fields** — named values alone.
* **expand** — a value with its references resolved and its white space written as spaces.
-/

namespace MarkupRouting.Markup

/-- A name with the value written for it. -/
abbrev Written := List Char × List Char

/-- Where in a start tag a character stands. Characters that were read come last one first. -/
inductive Spot where
  /-- In the name of the element. -/
  | name (cs : List Char)
  /-- Between two values, behind a space or not. -/
  | gap (spaced : Bool)
  /-- In the name of a value. -/
  | key (cs : List Char)
  /-- Behind the name of a value, before the sign of equality. -/
  | equals (word : List Char)
  /-- Behind the sign of equality. -/
  | opening (word : List Char)
  /-- Between the quotes. -/
  | value (word : List Char) (quote : Char) (cs : List Char)
  /-- Behind the slash that ends an empty element. -/
  | slash
  deriving DecidableEq, Repr

/-- What is known of a start tag so far. -/
structure Spot.Progress where
  /-- Where the next character stands. -/
  spot : Spot
  /-- The name of the element. -/
  element : List Char
  /-- The named values so far, the last one first. -/
  written : List Written
  deriving Repr

/-- The next character of a start tag is read; nothing where it cannot stand there. -/
def Spot.step (p : Spot.Progress) (c : Char) : Option Spot.Progress :=
  match p.spot with
  | .name cs =>
    if isSpace c then some { p with spot := .gap true, element := cs.reverse }
    else if c == '/' then some { p with spot := .slash, element := cs.reverse }
    else some { p with spot := .name (c :: cs) }
  | .gap spaced =>
    if isSpace c then some { p with spot := .gap true }
    else if c == '/' then some { p with spot := .slash }
    else if spaced then some { p with spot := .key [c] }
    else none
  | .key cs =>
    if isSpace c then some { p with spot := .equals cs.reverse }
    else if c == '=' then some { p with spot := .opening cs.reverse }
    else some { p with spot := .key (c :: cs) }
  | .equals word =>
    if isSpace c then some p
    else if c == '=' then some { p with spot := .opening word }
    else none
  | .opening word =>
    if isSpace c then some p
    else if c.toNat == 0x22 || c.toNat == 0x27 then some { p with spot := .value word c [] }
    else none
  | .value word quote cs =>
    if c == quote then
      some { p with spot := .gap false, written := (word, cs.reverse) :: p.written }
    else if c == '<' then none
    else some { p with spot := .value word quote (c :: cs) }
  | .slash => none

/-- The inside of a start tag. -/
structure StartTag where
  /-- The name of the element. -/
  name : List Char
  /-- The named values as written, in order. -/
  written : List Written
  /-- There is nothing inside the element, and no end tag. -/
  empty : Bool
  deriving Repr

/-- All names in a start tag are names, and all values are made of characters that may stand in a
document. -/
def StartTag.isNamed (t : StartTag) : Bool :=
  isName t.name && t.written.all (fun (key, value) => isName key && value.all isAllowed)

/-- The start tag with the given inside. -/
def StartTag.read (cs : List Char) : Except Flaw StartTag :=
  match cs.foldlM Spot.step ⟨.name [], [], []⟩ with
  | none => .error .malformed
  | some p =>
    let tag? : Option StartTag :=
      match p.spot with
      | .name name => some ⟨name.reverse, p.written.reverse, false⟩
      | .gap _ => some ⟨p.element, p.written.reverse, false⟩
      | .slash => some ⟨p.element, p.written.reverse, true⟩
      | _ => none
    match tag? with
    | some tag => if tag.isNamed then .ok tag else .error .malformed
    | none => .error .malformed

/-- Named values set apart by space, with nothing in front of them. -/
def fields (cs : List Char) : Option (List Written) :=
  match cs.foldlM Spot.step ⟨.gap false, [], []⟩ with
  | some ⟨.gap _, _, written⟩ => some written.reverse
  | _ => none

/-! ## Values -/

/-- A value as far as it is expanded. -/
structure Expansion where
  /-- The characters so far, the last one first. -/
  sofar : List Char
  /-- The reference that is being read, the last character first. -/
  reference : Option (List Char)
  deriving Repr

/-- The reference to the ampersand by its number. -/
def ampersand : List Char := ['&', '#', '3', '8', ';']

/-- The next character of a value. White space is written as a space. A reference to the ampersand
is kept as a reference unless it is to be resolved. -/
def Expansion.step (resolve : Bool) (e : Expansion) (c : Char) : Except Flaw Expansion :=
  match e.reference with
  | none =>
    if c == '&' then .ok { e with reference := some [] }
    else if isSpace c then .ok { e with sofar := ' ' :: e.sofar }
    else .ok { e with sofar := c :: e.sofar }
  | some cs =>
    if c == ';' then
      (Reference.read cs.reverse).map fun d =>
        if d == '&' && !resolve then ⟨ampersand.reverse ++ e.sofar, none⟩ else ⟨d :: e.sofar, none⟩
    else .ok { e with reference := some (c :: cs) }

/-- A value with its references resolved and its white space written as spaces; a line end is one
space. -/
def expand (resolve : Bool) (value : List Char) : Except Flaw String := do
  let e ← (lineEnds value).foldlM (Expansion.step resolve) ⟨[], none⟩
  if e.reference.isSome then .error .malformed else .ok (String.ofList e.sofar.reverse)

end MarkupRouting.Markup
