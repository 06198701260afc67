import MarkupRouting.Value

/-!
# Arithmetic on values

Numbers of untyped values put together. Integers and truth values are calculated with exactly; as
soon as a double takes part, everything is made a double first.

* **Value.Mismatch** — why there is no result.
* **Value.minus**, **quotient** — a difference, and a quotient as a double.
* **Value.isMultipleOf** — one number is a whole multiple of another.
-/

namespace MarkupRouting.Value

/-- Why there is no result. -/
inductive Mismatch where
  /-- A value is no number. -/
  | notNumber
  /-- A number is too large for a double. -/
  | tooLarge
  deriving DecidableEq, Repr

/-- An integer as a double. -/
def doubleOfInt (n : Int) : Except Mismatch Double :=
  match Double.ofInt n with
  | some x => .ok x
  | none => .error .tooLarge

/-- A number as a double. -/
def toDouble (v : Value) : Except Mismatch Double :=
  match v, v.toInt? with
  | .double x, _ => .ok x
  | _, some n => doubleOfInt n
  | _, none => .error .notNumber

/-- Two numbers, as integers if both are, else as doubles. -/
def pair (a b : Value) : Except Mismatch ((Int × Int) ⊕ (Double × Double)) :=
  match a.toInt?, b.toInt? with
  | some n, some m => .ok (.inl (n, m))
  | _, _ =>
    if a.isNumber && b.isNumber then do
      let x ← a.toDouble
      let y ← b.toDouble
      return .inr (x, y)
    else .error .notNumber

/-- The difference of two numbers. -/
def minus (a b : Value) : Except Mismatch Value :=
  (pair a b).map fun
    | .inl (n, m) => .int (n - m)
    | .inr (x, y) => .double (x.sub y)

/-- The quotient of two numbers, the second of which is not zero. -/
def quotient (a b : Value) : Except Mismatch Double := do
  match ← pair a b with
  | .inl (n, m) =>
    match Double.ratio n m with
    | some x => .ok x
    | none => .error .tooLarge
  | .inr (x, y) => .ok (x.div y)

/-- A number is a whole multiple of another one, which is not zero. -/
def isMultipleOf (a b : Value) : Except Mismatch Bool :=
  (pair a b).map fun
    | .inl (n, m) => n % m == 0
    | .inr (x, y) => x.isMultipleOf y

end MarkupRouting.Value
