/-!
# File names

Names of files, and what stands in the way of opening a file that is not there.

* **FileName.plain** — a name in its plain form.
* **FileName.Obstacle**, **FileName.obstacle** — why there is no file of a name.
-/

namespace MarkupRouting.FileName

/-- The parts of a name between its separators. -/
def parts (name : String) : List (List Char) :=
  name.toList.foldr
    (fun c parts => match parts with
      | part :: rest => if c == '/' then [] :: part :: rest else (c :: part) :: rest
      | [] => if c == '/' then [[], []] else [[c]]) [[]]

/-- What a name begins with: exactly two separators are kept, any other number of them is one. -/
def root (name : String) : String :=
  let separators := (name.toList.takeWhile (· == '/')).length
  if separators = 0 then "" else if separators = 2 then "//" else "/"

/-- The parts of a name that say something: empty parts and parts that stay where they are do
not. -/
def steps (name : String) : List String :=
  ((parts name).filter (fun part => !part.isEmpty && part != ['.'])).map String.ofList

/-- The name of a file in its plain form. -/
def plain (name : String) : String :=
  let text := root name ++ String.intercalate "/" (steps name)
  if text.isEmpty then "." else text

/-- Why there is no file of a name. -/
inductive Obstacle where
  /-- Nothing of the name is there. -/
  | missing
  /-- The name, or the first part of it that has to be looked for, is too long. -/
  | tooLong
  /-- No file has a name with a zero character in it. -/
  | zeroCharacter
  /-- What is there is a directory. -/
  | directory
  deriving DecidableEq, Repr

/-- The number of bytes from which on a name is too long. -/
def longName : Nat := 4096

/-- The number of bytes that a part of a name may have. -/
def longestPart : Nat := 255

/-- Why a name is not the name of a file, when nothing is known of the files there are but that each
directory is inside another one. Parts that lead outwards need not be looked for. -/
def obstacle (name : String) : Obstacle :=
  if name.toList.any (fun c => c.toNat == 0) then .zeroCharacter
  else if longName ≤ (plain name).utf8ByteSize then .tooLong
  else
    match (steps name).dropWhile (· == "..") with
    | [] => .directory
    | part :: _ => if longestPart < part.utf8ByteSize then .tooLong else .missing

end MarkupRouting.FileName
