import MarkupRouting.Markup.Character

/-!
# Texts in runs

A text is not reported as a whole. Characters of ASCII come in runs that end where a carriage return
stands; from the first character that is none of them, or the first line end of another form, the
rest comes in pieces of a bounded size.

* **Run.pieces** — a text in pieces of a bounded size.
* **Run.split** — a text in its runs, with line ends written as line feeds.
-/

namespace MarkupRouting.Markup.Run

/-- The number of bytes from which on a text is not kept together. -/
def longText : Nat := 300

/-- The run that was read, the last character first, in front of others. -/
def push (read : List Char) (rest : List (List Char)) : List (List Char) :=
  if read.isEmpty then rest else read.reverse :: rest

/-- A text in pieces, each of which ends with the character that makes it long; `read` are the
characters of the first piece so far, the last one first, and `size` is how many bytes they take. -/
def piecesFrom (read : List Char) (size : Nat) : List Char → List (List Char)
  | [] => push read []
  | c :: rest =>
    if longText ≤ size + c.utf8Size then (c :: read).reverse :: piecesFrom [] 0 rest
    else piecesFrom (c :: read) (size + c.utf8Size) rest

/-- A text in pieces of a bounded size. -/
def pieces (cs : List Char) : List (List Char) := piecesFrom [] 0 (lineEnds cs)

/-- The character does not end a run of ASCII. -/
def isPlain (c : Char) : Bool := (0x20 ≤ c.toNat && c.toNat ≤ 0x7F) || c == '\t' || c == '\n'

/-- The runs of a text; `read` are the characters of the first run so far, the last one first. A
line feed behind a carriage return begins a run. -/
def splitFrom (read : List Char) : List Char → List (List Char)
  | [] => push read []
  | '\r' :: '\n' :: rest =>
    push read (if rest.head?.all isPlain then splitFrom ['\n'] rest else pieces ('\n' :: rest))
  | c :: rest => if isPlain c then splitFrom (c :: read) rest else push read (pieces (c :: rest))

/-- A text in its runs, with line ends written as line feeds. -/
def split (cs : List Char) : List (List Char) := splitFrom [] cs

end MarkupRouting.Markup.Run
