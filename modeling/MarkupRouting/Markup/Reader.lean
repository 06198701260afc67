import MarkupRouting.Markup.Decoder
import MarkupRouting.Markup.Name
import MarkupRouting.Markup.Token
import MarkupRouting.Markup.Tokenizer

/-!
# Reading documents

The tokens of a document checked against each other and turned into reports: tags that match, one
root element, names in declared namespaces, references to known entities.

* **Place**, **Reader** — where in the document a token stands; what is known between two tokens.
* **Reader.take** — one token more, with what is reported of it.
* **Standard**, **standard** — the tokenizer for the whole of the markup but document types.
-/

namespace MarkupRouting.Markup

/-- Where in the document a token stands. -/
inductive Place where
  /-- At the very start, where alone a declaration may stand. -/
  | start
  /-- In front of the root element. -/
  | front
  /-- Inside the root element. -/
  | inside
  /-- Behind the root element. -/
  | behind
  deriving DecidableEq, Repr

/-- What is known between two tokens. -/
structure Reader where
  /-- Where the next token stands. -/
  place : Place
  /-- The open elements, the innermost one first: the name as written and with its namespace, and
  the namespaces declared. -/
  opened : List (List Char × String × Scope)
  /-- Something was amiss with namespaces. -/
  amiss : Bool
  deriving Repr

/-- How tokens are taken. -/
structure Reader.Mode where
  /-- References to the ampersand are resolved in attribute values. -/
  resolve : Bool
  /-- How much of a document is kept together. -/
  limits : Limits
  deriving DecidableEq, Repr

namespace Reader

/-- Before the first token. -/
def initial : Reader := ⟨.start, [], false⟩

/-- The namespaces declared at a token. -/
def scope (r : Reader) : Scope :=
  match r.opened with
  | [] => Scope.outer
  | (_, _, s) :: _ => s

/-- The reader with other elements open, after the root element has been entered or left. -/
def arrive (r : Reader) (opened : List (List Char × String × Scope)) : Reader :=
  { r with place := if opened.isEmpty then .behind else .inside, opened }

/-- The three characters with which a section without markup ends. -/
def sectionEnd : List Char := [']', ']', '>']

/-- The characters stand somewhere among others. -/
def occurs (part : List Char) : List Char → Bool
  | [] => part.isEmpty
  | c :: rest => part.isPrefixOf (c :: rest) || occurs part rest

/-- The reader behind something that leaves no trace. -/
def passed (r : Reader) : Reader := if r.place == .start then { r with place := .front } else r

/-- A report of a text. -/
def dataMark (cs : List Char) : Mark := .data (String.ofList cs)

/-- A text. Outside the root element there is only space. -/
def takeText (r : Reader) (cs : List Char) : Except Flaw (List Mark × Reader) :=
  if r.place == .inside then
    if occurs sectionEnd cs || !cs.all isAllowed then .error .malformed
    else .ok ((Run.split cs).map dataMark, r)
  else if cs.all isSpace then .ok ([], r.passed)
  else .error .malformed

/-- A reference to a character. -/
def takeReference (r : Reader) (cs : List Char) : Except Flaw (List Mark × Reader) :=
  if r.place == .inside then (Reference.read cs).map (fun c => ([dataMark [c]], r))
  else .error .malformed

/-- The start of an element. -/
def takeStart (m : Mode) (r : Reader) (cs : List Char) : Except Flaw (List Mark × Reader) := do
  let t ← StartTag.read cs
  let ((name, attributes, inner), amiss) ← (r.scope.enter m.limits m.resolve t).run r.amiss
  let r := { r with amiss }
  if t.empty then
    return ([.start name attributes, .finish name], r.arrive r.opened)
  else
    return ([.start name attributes], r.arrive ((t.name, name, inner) :: r.opened))

/-- The end of an element, which has to be the innermost open one. -/
def takeEnd (r : Reader) (cs : List Char) : Except Flaw (List Mark × Reader) :=
  match r.opened with
  | [] => .error .malformed
  | (written, name, _) :: around =>
    if written.isPrefixOf cs && (cs.drop written.length).all isSpace then
      .ok ([.finish name], r.arrive around)
    else .error .malformed

/-- A comment, in which two hyphens may not follow each other. -/
def takeComment (r : Reader) (cs : List Char) : Except Flaw (List Mark × Reader) :=
  if occurs ['-', '-'] (cs ++ ['-']) || !cs.all isAllowed then .error .malformed
  else .ok ([], r.passed)

/-- The word with which a declaration begins, which no instruction may use in letters of either
case. -/
def declarationWord : List Char := ['x', 'm', 'l']

/-- A processing instruction, or the declaration at the very start. Colons in the name of an
instruction are amiss. -/
def takeInstruction (m : Mode) (r : Reader) (cs : List Char) : Except Flaw (List Mark × Reader) :=
  let target := cs.takeWhile (fun c => !isSpace c)
  if target == declarationWord && r.place == .start then
    if (Declaration.read (cs.drop target.length)).any (·.fits m.limits.name) then
      .ok ([], r.passed)
    else .error .malformed
  else if !isName target || target.map Text.lowerAscii == declarationWord || !cs.all isAllowed
      || m.limits.name < byteSize target then .error .malformed
  else .ok ([], { r.passed with amiss := r.amiss || target.contains ':' })

/-- A section without markup. -/
def takeSection (r : Reader) (cs : List Char) : Except Flaw (List Mark × Reader) :=
  if r.place == .inside && cs.all isAllowed then .ok ([dataMark (lineEnds cs)], r)
  else .error .malformed

/-- The token may stand behind the root element. -/
def isTrailer : Token → Bool
  | .text cs => cs.all isSpace
  | .comment _ | .instruction _ => true
  | _ => false

/-- One token more, with what is reported of it. -/
def take (m : Mode) (r : Reader) (t : Token) : Except Flaw (List Mark × Reader) :=
  if r.place == .behind && !isTrailer t then .error .trailing
  else
    match t with
    | .text cs => r.takeText cs
    | .reference cs => r.takeReference cs
    | .startTag cs => r.takeStart m cs
    | .endTag cs => r.takeEnd cs
    | .comment cs => r.takeComment cs
    | .instruction cs => r.takeInstruction m cs
    | .section cs => r.takeSection cs
    | .unknown => .error .malformed

end Reader

/-! ## The tokenizer -/

/-- What the standard tokenizer knows between two pieces of a document. -/
structure Standard where
  /-- How tokens are taken. -/
  mode : Reader.Mode
  /-- The first bytes, as long as there are too few of them for reading to begin. -/
  held : Option (List UInt8)
  /-- What is known of the bytes. -/
  decoder : Decoder
  /-- What is known of the characters. -/
  lexer : Lexer
  /-- What is known of the tokens. -/
  reader : Reader
  /-- The document is over, whatever else comes. -/
  ended : Bool
  /-- How many bytes are kept in front of what has begun. -/
  kept : Nat
  deriving Repr

namespace Standard

/-- Before the first piece. -/
def initial (o : Tokenizer.Options) : Standard :=
  { mode := ⟨o.resolve, Limits.of o.huge⟩
    held := some []
    decoder := Decoder.start (if o.isUtf8 then some .utf8 else none)
    lexer := Lexer.idle
    reader := Reader.initial
    ended := false
    kept := 0 }

/-- Something stands behind the document that does not belong to it. Where something was amiss
before nothing is made of that, and the document is over. -/
def trail (s : Standard) (sofar : List Mark) : Option (List Mark × Standard) :=
  if s.reader.amiss then some (sofar, { s with ended := true }) else none

/-- Tokens are taken in turn, with what was reported so far, the last report first. -/
def takeAll (s : Standard) (sofar : List Mark) : List Token → Option (List Mark × Standard)
  | [] => some (sofar, s)
  | t :: rest =>
    match s.reader.take s.mode t with
    | .ok (marks, reader) => takeAll { s with reader } (marks.reverse ++ sofar) rest
    | .error .malformed => none
    | .error .trailing => s.trail sofar

/-- What is held back at the end of a piece. Inside the root element a long text is not; outside it
space is not, and anything else has to be the beginning of something that may stand there. -/
def settle (s : Standard) (sofar : List Mark) : Option (List Mark × Standard) :=
  match s.reader.place with
  | .inside =>
    let (lexer, token) := s.lexer.overflow s.decoder.torn
    takeAll { s with lexer } sofar token.toList
  | .behind =>
    if !s.lexer.mayTrail s.decoder.torn then s.trail sofar
    else some (sofar, if s.lexer.within == .text then { s with lexer := Lexer.idle } else s)
  | .start | .front =>
    if s.lexer.mayNotLead s.decoder.torn then none
    else if s.lexer.within == .text && s.lexer.held.all isSpace then
      takeAll { s with lexer := Lexer.idle } sofar s.lexer.textToken.toList
    else some (sofar, s)

/-- Of more bytes than this only the last few are kept when the next piece comes. -/
def mostKept : Nat := 4096

/-- How many bytes are kept then. -/
def leastKept : Nat := 80

/-- How many bytes are kept when a piece comes behind so many. -/
def stillKept (kept : Nat) : Nat := if mostKept < kept then leastKept else kept

/-- Bytes are read. What is read of them is kept until the next piece comes, and that may not be too
much. -/
def read (s : Standard) (bytes : List UInt8) : Option (List Mark × Standard) := do
  let (cs, decoder) ← s.decoder.feed bytes
  let (lexer, tokens) := s.lexer.scan cs
  let come := stillKept s.kept + s.lexer.unread + byteSize cs
  guard (come - lexer.unread ≤ s.mode.limits.kept)
  let (sofar, s) ← takeAll { s with decoder, lexer } [] tokens
  let (sofar, s) ← if s.ended then some (sofar, s) else s.settle sofar
  let kept := come - s.lexer.unread
  guard (kept ≤ s.mode.limits.kept)
  return (sofar.reverse, { s with kept })

/-- How many bytes there have to be for reading to begin, besides one piece more. -/
def leastBytes : Nat := 4

/-- One piece more. Reading begins with enough bytes; a first piece of just as many is not
enough. -/
def feed (s : Standard) (bytes : List UInt8) : Option (List Mark × Standard) :=
  if s.ended then some ([], s)
  else
    match s.held with
    | none => s.read bytes
    | some front =>
      let all := front ++ bytes
      if all.length < leastBytes || (front.isEmpty && all.length ≤ leastBytes) then
        some ([], { s with held := some all })
      else read { s with held := none } all

/-- The root element has come and gone, and nothing has begun. Where something was amiss before it
may have, as long as nothing has come of it. -/
def isComplete (s : Standard) : Bool :=
  s.ended || (s.reader.place == .behind &&
    ((s.lexer.isIdle && !s.decoder.isOpen) ||
      (s.reader.amiss && (s.lexer.isIdle || s.lexer.isBare))))

/-- The end: what is reported of bytes that were held back, if the document is complete with
them. -/
def finish (s : Standard) : Option (List Mark) := do
  let (marks, s) ← match s.held with
    | some front => read { s with held := none } front
    | none => some ([], s)
  if s.isComplete then return marks else none

end Standard

/-- The tokenizer for the whole of the markup but document types. -/
def standard : Tokenizer :=
  { State := Standard, start := Standard.initial, feed := Standard.feed, finish := Standard.finish }

end MarkupRouting.Markup
