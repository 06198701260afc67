import MarkupRouting.Text.Blank

/-!
# Text modes

How the text of an element is normalised. A mode is two independent decisions, whether blanks at the
edges of the element are dropped and whether runs of blanks become one space.

* **TextMode** — the four modes; **trims** and **collapses** are its two decisions.
* **TextMode.ofFlags** — the mode with given decisions; it inverts the pair of them
  (**ofFlags_trims_collapses**).
* **TextMode.join** — the mode that does what either of two modes does.
* **TextMode.apply** — a text normalised; the two flags say whether it begins and whether it ends at
  an edge of its element.
-/

namespace MarkupRouting

/-- How the text of an element is normalised (`WhitespaceMode`). -/
inductive TextMode where
  /-- Drop blanks at the edges and write every run of blanks as one space. -/
  | normalize
  /-- Drop blanks at the edges only. -/
  | trim
  /-- Write every run of blanks as one space only. -/
  | collapse
  /-- Leave the text as it is. -/
  | keep
  deriving DecidableEq, Repr, Inhabited

namespace TextMode

/-- All modes in the order in which messages list them. -/
def all : List TextMode := [normalize, trim, collapse, keep]

/-- The word that names a mode. -/
def word : TextMode → String
  | normalize => "normalize"
  | trim => "trim"
  | collapse => "collapse"
  | keep => "keep"

/-- Blanks at the edges of an element are dropped (`WhitespaceMode.trims`). -/
def trims : TextMode → Bool
  | normalize | trim => true
  | collapse | keep => false

/-- Runs of blanks become one space (`WhitespaceMode.collapses`). -/
def collapses : TextMode → Bool
  | normalize | collapse => true
  | trim | keep => false

/-- The mode with the given decisions (`from_flags`). -/
def ofFlags : Bool → Bool → TextMode
  | true, true => normalize
  | true, false => trim
  | false, true => collapse
  | false, false => keep

/-- A mode trims exactly if it was asked to. -/
@[simp] theorem trims_ofFlags (t c : Bool) : (ofFlags t c).trims = t := by
  cases t <;> cases c <;> rfl

/-- A mode collapses exactly if it was asked to. -/
@[simp] theorem collapses_ofFlags (t c : Bool) : (ofFlags t c).collapses = c := by
  cases t <;> cases c <;> rfl

/-- A mode is its two decisions. -/
@[simp] theorem ofFlags_trims_collapses (m : TextMode) : ofFlags m.trims m.collapses = m := by
  cases m <;> rfl

/-- The mode that does whatever either of two modes does (`combine`). -/
def join (a b : TextMode) : TextMode :=
  ofFlags (a.trims || b.trims) (a.collapses || b.collapses)

/-- Joined modes trim if one of them does (`combine`): what one rule asks for is not undone by
another. -/
@[simp] theorem trims_join (a b : TextMode) : (a.join b).trims = (a.trims || b.trims) := by
  simp [join]

/-- Joined modes collapse if one of them does (`combine`). -/
@[simp] theorem collapses_join (a b : TextMode) :
    (a.join b).collapses = (a.collapses || b.collapses) := by
  simp [join]

/-- A list of characters normalised. A trimming mode drops a text that is blank throughout, even
away from the edges. -/
def applyChars (m : TextMode) (atStart atEnd : Bool) (cs : List Char) : List Char :=
  if m.trims && Text.allBlank cs then []
  else
    let cs := if m.collapses then Text.collapse cs else cs
    let cs := if m.trims && atStart then Text.trimStart cs else cs
    if m.trims && atEnd then Text.trimEnd cs else cs

/-- A text normalised (`WhitespaceMode.apply`); `atStart` and `atEnd` say whether it begins and ends
at an edge of its element, where alone trimming happens. -/
def apply (m : TextMode) (text : String) (atStart : Bool) (atEnd : Bool) : String :=
  String.ofList (m.applyChars atStart atEnd text.toList)

/-- Whatever the mode, an empty text stays empty. -/
@[simp] theorem apply_empty (m : TextMode) (atStart atEnd : Bool) :
    m.apply "" atStart atEnd = "" := by
  cases m <;> cases atStart <;> cases atEnd <;> rfl

end TextMode

end MarkupRouting
