import MarkupRouting.Markup.Character

/-!
# References

What stands between `&` and `;`: the number of a character, or the name of an entity. Five entities
are declared in every document, and no other one can be.

* **Flaw** — why a document is refused.
* **Reference.read** — the character that a reference stands for.
-/

namespace MarkupRouting.Markup

/-- Why a document is refused. -/
inductive Flaw where
  /-- It is not well-formed; what was read together with the flaw is not reported. -/
  | malformed
  /-- Something stands behind it that does not belong to it. -/
  | trailing
  deriving DecidableEq, Repr

namespace Reference

/-- The value of a digit in a base up to sixteen. -/
def digit? (base : Nat) (c : Char) : Option Nat :=
  let value :=
    if c.isDigit then c.toNat - 0x30
    else if 'a' ≤ c && c ≤ 'f' then c.toNat - 0x61 + 10
    else if 'A' ≤ c && c ≤ 'F' then c.toNat - 0x41 + 10
    else base
  if value < base then some value else none

/-- One more digit behind a number; numbers beyond all characters are not told apart. -/
def shift (base n : Nat) (c : Char) : Option Nat :=
  (digit? base c).map (fun d => min 0x110000 (n * base + d))

/-- The character of the given number, of which there has to be a digit. -/
def character (base : Nat) (digits : List Char) : Except Flaw Char :=
  if digits.isEmpty then .error .malformed
  else
    match digits.foldlM (shift base) 0 with
    | none => .error .malformed
    | some n =>
      if h : n.isValidChar then
        let c := Char.ofNatAux n h
        if isAllowed c then .ok c else .error .malformed
      else .error .malformed

/-- The entities that are declared in every document. -/
def entities : List (String × Char) :=
  [("lt", '<'), ("gt", '>'), ("amp", '&'), ("quot", Char.ofNat 0x22), ("apos", Char.ofNat 0x27)]

/-- The character that a reference stands for. -/
def read : List Char → Except Flaw Char
  | '#' :: 'x' :: digits => character 16 digits
  | '#' :: digits => character 10 digits
  | name =>
    match entities.lookup (String.ofList name) with
    | some c => .ok c
    | none => .error .malformed

end Reference

end MarkupRouting.Markup
