/-!
# Blank characters

Which characters count as blank, and the three things done with runs of them: dropping a leading
run, dropping a trailing run, and writing every run as a single space.

* **isBlank** — the twenty-nine blank code points.
* **trimStart**, **trimEnd**, **trim** — a text without its leading or trailing blanks.
* **collapse** — a text with every maximal run of blanks written as one space.

The functions work on lists of characters; the `String` forms stand at the end.
-/

namespace MarkupRouting.Text

/-! ## The class -/

/-- The blank characters: the white space of the Unicode standard together with the four
information separators U+001C to U+001F. The zero width space and the byte order mark are not
blank. -/
def isBlank (c : Char) : Bool :=
  let n := c.toNat
  (0x09 ≤ n && n ≤ 0x0D) || (0x1C ≤ n && n ≤ 0x20) || n == 0x85 || n == 0xA0 || n == 0x1680
    || (0x2000 ≤ n && n ≤ 0x200A) || n == 0x2028 || n == 0x2029 || n == 0x202F || n == 0x205F
    || n == 0x3000

/-- A space is blank. -/
theorem isBlank_space : isBlank ' ' = true := by decide

/-! ## Lists of characters -/

/-- A text without its leading blanks. -/
def trimStart (cs : List Char) : List Char := cs.dropWhile isBlank

/-- A text without its trailing blanks. -/
def trimEnd (cs : List Char) : List Char := (cs.reverse.dropWhile isBlank).reverse

/-- A text without the blanks at either end. -/
def trim (cs : List Char) : List Char := trimEnd (trimStart cs)

/-- Writes each run of blanks as one space; `inRun` says that the space of the current run has
already been written. -/
def collapseFrom : Bool → List Char → List Char
  | _, [] => []
  | inRun, c :: rest =>
    if isBlank c then
      if inRun then collapseFrom true rest else ' ' :: collapseFrom true rest
    else c :: collapseFrom false rest

/-- A text in which every maximal run of blanks is one space. -/
def collapse (cs : List Char) : List Char := collapseFrom false cs

/-- A text made of blanks only, the empty text included. -/
def allBlank (cs : List Char) : Bool := cs.all isBlank

/-! ## Strings -/

/-- The string without the blanks at either end. -/
def trimmed (s : String) : String := String.ofList (trim s.toList)

/-- The string is made of blanks only, or empty. -/
def isBlankText (s : String) : Bool := allBlank s.toList

end MarkupRouting.Text
