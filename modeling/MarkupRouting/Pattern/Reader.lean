import MarkupRouting.Pattern.Basic
import MarkupRouting.Text.Blank
import MarkupRouting.Value

/-!
# Reading patterns

The texts that are patterns: names and `*` between single or doubled separators, with an optional
separator of either kind in front and an optional doubled one at the end.

* **Name.isValid** — the texts that name an element.
* **Pattern.Flaw** — why a text is no pattern.
* **Token**, **tokens** — a text cut into runs of separators and what stands between them.
* **readSteps** — the steps of a list of tokens.
* **Pattern.read**, **Pattern.ofValue** — the pattern of a text, of an untyped value.
-/

namespace MarkupRouting

/-! ## Names -/

namespace Name

/-- The character may begin a name (`is_name_start_char`): an ASCII letter, `_`, `:`, or anything
beyond ASCII. -/
def isStart (c : Char) : Bool := c.isAlpha || c == '_' || c == ':' || 0x80 ≤ c.toNat

/-- The character may stand in a name (`is_name_char`): one that may begin it, an ASCII digit, `.`
or `-`. -/
def isPart (c : Char) : Bool := isStart c || c.isDigit || c == '.' || c == '-'

/-- The characters are a name (`is_valid_name`). -/
def isValid : List Char → Bool
  | [] => false
  | c :: rest => isStart c && (c :: rest).all isPart

end Name

namespace Pattern

/-- Why something is no pattern (`InvalidPatternError`). -/
inductive Flaw where
  /-- It is no text. -/
  | notText
  /-- It is no text, and cannot be written in the message that would say so. -/
  | unwritable
  /-- There is nothing but blanks. -/
  | blank
  /-- There are blanks at an end. -/
  | surroundingBlanks
  /-- There are three separators or more in a row. -/
  | separatorRun
  /-- Two single separators stand with nothing between them. -/
  | emptySegment
  /-- What stands between separators is neither a name nor `*`. -/
  | badSegment (segment : String)
  /-- There is no step at all. -/
  | noSegments
  /-- A single separator stands at the end. -/
  | trailingSeparator
  deriving DecidableEq, Repr

/-- The flaw in words; none where it cannot be told, because the message has to show what cannot be
written. -/
def Flaw.reason? : Flaw → Option String
  | notText => some "pattern must be a string"
  | unwritable => none
  | blank => some "pattern is empty"
  | surroundingBlanks => some "pattern has surrounding whitespace"
  | separatorRun => some "more than two consecutive separators"
  | emptySegment => some "empty segment"
  | badSegment segment => some (Text.quoted segment ++ " is not a valid element name or '*'")
  | noSegments => some "pattern has no segments"
  | trailingSeparator => some "pattern ends with a separator"

/-! ## Tokens -/

/-- A part of a pattern's text. -/
inductive Token where
  /-- A run of the given number of separators. -/
  | separators (count : Nat)
  /-- What stands between two runs of separators. -/
  | word (cs : List Char)
  deriving DecidableEq, Repr

/-- One character in front of a list of tokens. -/
def Token.extend (c : Char) (ts : List Token) : List Token :=
  if c = '/' then
    match ts with
    | .separators n :: rest => .separators (n + 1) :: rest
    | ts => .separators 1 :: ts
  else
    match ts with
    | .word cs :: rest => .word (c :: cs) :: rest
    | ts => .word [c] :: ts

/-- A text cut into runs of separators and what stands between them. -/
def tokens (cs : List Char) : List Token := cs.foldr Token.extend []

/-! ## Steps -/

/-- The step that a word stands for (`_segment_for`). -/
def readWord (cs : List Char) : Except Flaw Step :=
  if cs = ['*'] then .ok .any
  else if Name.isValid cs then .ok (.element (String.ofList cs))
  else .error (.badSegment (String.ofList cs))

/-- The steps of a list of tokens; `expecting` says that a step has to come before the end or the
next single separator. -/
def readSteps : Bool → List Token → Except Flaw (List Step)
  | expecting, [] => if expecting then .error .trailingSeparator else .ok []
  | expecting, .separators n :: rest =>
    if 2 < n then .error .separatorRun
    else if n = 2 then
      match readSteps (!rest.isEmpty) rest with
      | .ok more => .ok (.deep :: more)
      | .error flaw => .error flaw
    else if expecting then .error .emptySegment
    else readSteps true rest
  | _, .word cs :: rest =>
    match readWord cs with
    | .error flaw => .error flaw
    | .ok step =>
      match readSteps false rest with
      | .ok more => .ok (step :: more)
      | .error flaw => .error flaw

/-- Whether a text with the given tokens begins at the root, and the tokens of its steps: a single
separator in front is no step, a doubled one is. -/
def splitAnchor : List Token → Bool × List Token
  | .separators 1 :: rest => (true, rest)
  | .separators 2 :: rest => (true, .separators 2 :: rest)
  | ts => (false, ts)

/-- The steps of a list of tokens of which there has to be one. -/
def readSegments (ts : List Token) : Except Flaw (List Step) :=
  if ts.isEmpty then .error .noSegments else readSteps true ts

/-- The pattern of a text, at the given place in the order of registration. -/
def read (source : String) (sequence : Int) : Except Flaw Pattern :=
  let cs := source.toList
  if Text.allBlank cs then .error .blank
  else if Text.trim cs ≠ cs then .error .surroundingBlanks
  else
    let (anchored, ts) := splitAnchor (tokens cs)
    match readSegments ts with
    | .ok segments => .ok { source, segments, anchored, sequence }
    | .error flaw => .error flaw

/-- The pattern of an untyped value, which has to be a text (`compile_pattern`). Of another value it
is said that it is none, if the value can be written. -/
def ofValue (v : Value) (sequence : Int) : Except Flaw Pattern :=
  match v with
  | .text source => read source sequence
  | v => .error (if v.isWritable then .notText else .unwritable)

end Pattern

end MarkupRouting
