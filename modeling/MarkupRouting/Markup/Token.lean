import MarkupRouting.Markup.Run

/-!
# Tokens

A document as a sequence of texts and pieces of markup, found one character at a time. A token comes
into being with its last character, so that a piece of a document yields the tokens that end in it.

* **Token** — a text, a reference, or a piece of markup by its inside.
* **Lexer**, **Lexer.step** — what is known between two characters; one character more.
* **Lexer.scan** — the tokens that end in a number of characters.
* **Lexer.overflow** — a long text is not held back until it ends.
* **Lexer.mayTrail**, **mayNotLead** — whether what has begun can stand outside the root element.
-/

namespace MarkupRouting.Markup

/-- A part of a document. -/
inductive Token where
  /-- A text. -/
  | text (cs : List Char)
  /-- What stands between `&` and `;`. -/
  | reference (cs : List Char)
  /-- The inside of a start tag. -/
  | startTag (cs : List Char)
  /-- The inside of an end tag, behind the slash. -/
  | endTag (cs : List Char)
  /-- The inside of a comment. -/
  | comment (cs : List Char)
  /-- The inside of a processing instruction. -/
  | instruction (cs : List Char)
  /-- The text of a section without markup. -/
  | section (cs : List Char)
  /-- Markup of no known kind. -/
  | unknown
  deriving DecidableEq, Repr

/-- In what kind of token a character stands. -/
inductive Within where
  | text
  | reference
  /-- Behind the bracket that opens markup. -/
  | markup
  /-- In a start tag, where a bracket between quotes does not end it. -/
  | startTag (quote : Option Char)
  | endTag
  /-- Behind an exclamation mark, before the kind of markup is known. -/
  | marked
  /-- In markup of no known kind, which ends like a start tag. -/
  | misfit (quote : Option Char)
  | comment
  | instruction
  | section
  deriving DecidableEq, Repr

/-- What is known between two characters. -/
structure Lexer where
  /-- The kind of the token that has begun. -/
  within : Within := .text
  /-- The characters inside it so far, the last one first. -/
  held : List Char := []
  /-- How many bytes they take. -/
  size : Nat := 0
  deriving DecidableEq, Repr, Inhabited

namespace Lexer

/-- Nothing has begun but a text. -/
def idle : Lexer := {}

/-- The token goes on with a character. -/
def keep (l : Lexer) (c : Char) : Lexer :=
  { l with held := c :: l.held, size := l.size + c.utf8Size }

/-- The text in front of a token of another kind, if there is one. -/
def textToken (l : Lexer) : Option Token :=
  if l.held.isEmpty then none else some (.text l.held.reverse)

/-- A token of the given kind begins. -/
def begin (within : Within) : Lexer := { within, held := [], size := 0 }

/-- The quote that is open behind one more character of a start tag. -/
def quoteAfter (quote : Option Char) (c : Char) : Option Char :=
  match quote with
  | some q => if c == q then none else some q
  | none => if c.toNat == 0x22 || c.toNat == 0x27 then some c else none

/-- The word behind an exclamation mark with which a section without markup begins. -/
def sectionWord : List Char := ['[', 'C', 'D', 'A', 'T', 'A', '[']

/-- One character more of markup of no known kind. -/
def stepMisfit (quote : Option Char) (c : Char) : Lexer × Option Token :=
  if c == '>' && quote.isNone then (idle, some .unknown)
  else (begin (.misfit (quoteAfter quote c)), none)

/-- Markup that turns out to be of no known kind after some of its characters. -/
def misfit : Option Char → List Char → Lexer × Option Token
  | quote, [] => (begin (.misfit quote), none)
  | quote, c :: rest =>
    if c == '>' && quote.isNone then (idle, some .unknown) else misfit (quoteAfter quote c) rest

/-- The kind of markup is looked for in what stands behind an exclamation mark: two hyphens, or as
many characters behind a bracket as the word for a section has. -/
def resolve (l : Lexer) : Lexer × Option Token :=
  let word := l.held.reverse
  if word == ['-', '-'] then (begin .comment, none)
  else if word == sectionWord then (begin .section, none)
  else if word == ['-'] || (word.head? == some '[' && word.length < sectionWord.length) then
    (l, none)
  else misfit none word

/-- One character more, with the token that is complete because of it. -/
def step (l : Lexer) (c : Char) : Lexer × Option Token :=
  match l.within with
  | .text =>
    if c == '<' then (begin .markup, l.textToken)
    else if c == '&' then (begin .reference, l.textToken)
    else (l.keep c, none)
  | .reference => if c == ';' then (idle, some (.reference l.held.reverse)) else (l.keep c, none)
  | .markup =>
    if c == '/' then (begin .endTag, none)
    else if c == '?' then (begin .instruction, none)
    else if c == '!' then (begin .marked, none)
    else if c == '>' then (idle, some (.startTag []))
    else ((begin (.startTag (quoteAfter none c))).keep c, none)
  | .startTag quote =>
    if c == '>' && quote.isNone then (idle, some (.startTag l.held.reverse))
    else ({ l.keep c with within := .startTag (quoteAfter quote c) }, none)
  | .endTag => if c == '>' then (idle, some (.endTag l.held.reverse)) else (l.keep c, none)
  | .marked => (l.keep c).resolve
  | .misfit quote => stepMisfit quote c
  | .comment =>
    match c, l.held with
    | '>', '-' :: '-' :: inside => (idle, some (.comment inside.reverse))
    | _, _ => (l.keep c, none)
  | .instruction =>
    match c, l.held with
    | '>', '?' :: inside => (idle, some (.instruction inside.reverse))
    | _, _ => (l.keep c, none)
  | .section =>
    match c, l.held with
    | '>', ']' :: ']' :: inside => (idle, some (.section inside.reverse))
    | _, _ => (l.keep c, none)

/-- One character more, with the tokens that came so far, the last one first. -/
def push (s : Lexer × List Token) (c : Char) : Lexer × List Token :=
  match s.1.step c with
  | (l, some t) => (l, t :: s.2)
  | (l, none) => (l, s.2)

/-- The tokens that end in the given characters. -/
def scan (l : Lexer) (cs : List Char) : Lexer × List Token :=
  let (l, tokens) := cs.foldl push (l, [])
  (l, tokens.reverse)

/-- What is held back at the end of a long text, the last character first: a carriage return, which
a line feed may follow, and in front of it brackets, which may belong to the end of a section. -/
def unsettled (held : List Char) : List Char :=
  let (ending, front) := match held with
    | '\r' :: front => (['\r'], front)
    | front => ([], front)
  match front with
  | ']' :: ']' :: _ => ending ++ [']', ']']
  | ']' :: _ => ending ++ [']']
  | _ => ending

/-- A long text as a token of its own, before it has come to its end. A carriage return at its end
does not count; the bytes of a character that is not complete do. -/
def overflow (l : Lexer) (torn : Nat) : Lexer × Option Token :=
  let size := (if l.held.head? == some '\r' then l.size - 1 else l.size) + torn
  if l.within == .text && Run.longText ≤ size then
    let back := unsettled l.held
    let front := l.held.drop back.length
    if front.isEmpty then (l, none)
    else ({ l with held := back, size := back.length }, some (.text front.reverse))
  else (l, none)

/-- The number of bytes with which a token of some kind begins. -/
def headSize : Within → Nat
  | .text => 0
  | .reference | .markup | .startTag _ => 1
  | .endTag | .instruction | .marked | .misfit _ => 2
  | .comment => 4
  | .section => 9

/-- How many bytes of the token that has begun have come. -/
def unread (l : Lexer) : Nat := headSize l.within + l.size

/-- Nothing has begun. -/
def isIdle (l : Lexer) : Bool := l.within == .text && l.held.isEmpty

/-- What has begun may go on as something that can stand behind the root element: space, a comment
or an instruction. A character that is not complete can only stand inside one of them. -/
def mayTrail (l : Lexer) (torn : Nat) : Bool :=
  match l.within with
  | .text => l.held.all isSpace && torn == 0
  | .markup => torn == 0
  | .marked => l.held.all (· == '-') && torn == 0
  | .instruction | .comment => true
  | .reference | .startTag _ | .endTag | .section | .misfit _ => false

/-- Nothing but the bracket that opens markup has come of something, or an exclamation mark and a
hyphen behind it. -/
def isBare (l : Lexer) : Bool := l.within == .markup || l.within == .marked

/-- What has begun cannot go on as something that stands in front of the root element; one byte
alone is never refused. The bytes of a character that is not complete count. -/
def mayNotLead (l : Lexer) (torn : Nat) : Bool :=
  match l.within with
  | .text => 2 ≤ byteSize (l.held.reverse.dropWhile isSpace) + torn
  | .reference => !l.held.isEmpty || torn != 0
  | _ => false

end Lexer

end MarkupRouting.Markup
