import MarkupRouting.Json.Reader
import Mathlib.Data.List.Basic
import Mathlib.Data.List.TakeDrop
import Mathlib.Tactic.IntervalCases
import Mathlib.Tactic.Ring

/-!
# JSON numbers read back

The forms in which numbers are written: digits, perhaps with places behind a point, perhaps with an
exponent. A numeral is read up to its end, as an integer where it has neither places nor an exponent
and as the double nearest to it otherwise.

* **digitsValue_toDigits** — the digits of a number have its value.
* **Whole** — the digits in front of the point: no zero leads them, unless it stands alone.
* **readNumber_whole**, **readNumber_places**, **readNumber_power** — the three forms read.
-/

namespace MarkupRouting.Json

/-! ### Digits -/

/-- The digits of a number have its value. -/
theorem digitsValue_toDigits (n : Nat) : digitsValue (Nat.toDigits 10 n) = n :=
  Nat.ofDigitChars_toDigits (by decide) (by decide)

/-- Zeros in front do not count. -/
theorem digitsValue_zeros (k : Nat) (cs : List Char) :
    digitsValue (List.replicate k '0' ++ cs) = digitsValue cs := by
  induction k with
  | zero => rfl
  | succ k ih => exact ih

/-- Every zero behind the digits is a factor of ten. -/
theorem digitsValue_append_zeros (cs : List Char) (k : Nat) :
    digitsValue (cs ++ List.replicate k '0') = digitsValue cs * 10 ^ k := by
  induction k with
  | zero => simp
  | succ k ih =>
    rw [List.replicate_succ', ← List.append_assoc, digitsValue, List.foldl_append]
    change 10 * digitsValue (cs ++ List.replicate k '0') + 0 = _
    rw [ih, pow_succ]
    ring

/-- All characters are digits. -/
def Digits (cs : List Char) : Prop := ∀ c ∈ cs, c.isDigit = true

/-- The text does not go on with a digit. -/
def NoDigit (rest : List Char) : Prop := ∀ c ∈ rest.head?, c.isDigit = false

/-- A number is written in digits. -/
theorem digits_toDigits (n : Nat) : Digits (Nat.toDigits 10 n) :=
  fun _ hc => Nat.isDigit_of_mem_toDigits (by decide) (by decide) hc

/-- Zeros are digits. -/
theorem digits_zeros (k : Nat) : Digits (List.replicate k '0') := by
  intro c hc
  rw [List.eq_of_mem_replicate hc]
  decide

/-- Digits followed by digits are digits. -/
theorem Digits.append {cs ds : List Char} (hc : Digits cs) (hd : Digits ds) : Digits (cs ++ ds) :=
  fun c h => (List.mem_append.mp h).elim (hc c) (hd c)

/-- Digits are split off up to the first character that is none. -/
theorem spanDigits_append {ds rest : List Char} (hds : Digits ds) (hrest : NoDigit rest) :
    spanDigits (ds ++ rest) = (ds, rest) := by
  rw [spanDigits, List.span_eq_takeWhile_dropWhile, List.takeWhile_append_of_pos hds,
    List.dropWhile_append_of_pos hds]
  cases rest with
  | nil => simp
  | cons c rest => simp [hrest c rfl]

/-! ### The parts of a numeral -/

/-- The digits in front of the point of a numeral. -/
structure Whole (ds : List Char) : Prop where
  /-- They are digits. -/
  digits : Digits ds
  /-- There is one. -/
  ne_nil : ds ≠ []
  /-- None of several is a zero in front of the others. -/
  lead : ds = ['0'] ∨ ds.head? ≠ some '0'

/-- The digits of a number other than zero do not begin with a zero. -/
theorem head_toDigits_ne_zero {n : Nat} (h : n ≠ 0) : (Nat.toDigits 10 n).head? ≠ some '0' := by
  induction n using Nat.strong_induction_on with
  | _ n ih =>
    rw [Nat.toDigits_eq_if (by decide)]
    split
    · next hn =>
      interval_cases n <;> first | exact absurd rfl h | decide
    · next hn =>
      have hne : Nat.toDigits 10 (n / 10) ≠ [] := by
        rw [← List.length_pos_iff]
        exact Nat.length_toDigits_pos
      rw [List.head?_append_of_ne_nil _ hne]
      exact ih (n / 10) (by omega) (by omega)

/-- The digits of a number may stand in front of a point. -/
theorem whole_toDigits (n : Nat) : Whole (Nat.toDigits 10 n) where
  digits := digits_toDigits n
  ne_nil := by
    rw [← List.length_pos_iff]
    exact Nat.length_toDigits_pos
  lead := by
    by_cases h : n = 0
    · left
      rw [h, Nat.toDigits_zero]
    · exact .inr (head_toDigits_ne_zero h)

/-- What stands behind a value: nothing, a gap, a comma or a closing bracket. A reader of numbers
goes on as long as it can; in front of these it stops where the number was written to end. -/
def Closes (rest : List Char) : Prop :=
  ∀ c ∈ rest.head?, isGap c = true ∨ c = ',' ∨ c = ']' ∨ c = '\x7d'

section Closes

variable {rest : List Char} (h : Closes rest)

include h

/-- What can follow a value begins with none of the characters that go on with a number. -/
theorem Closes.ne_head {c : Char} (hc : (isGap c || c == ',' || c == ']' || c == '\x7d') = false) :
    rest.head? ≠ some c := by
  intro hhead
  have := h c hhead
  simp_all

/-- What can follow a value does not begin with a digit. -/
theorem Closes.noDigit : NoDigit rest := by
  intro c hc
  rcases h c hc with hgap | rfl | rfl | rfl
  · simp only [isGap, Bool.or_eq_true, beq_iff_eq] at hgap
    rcases hgap with ((rfl | rfl) | rfl) | rfl <;> decide
  all_goals decide

/-- What can follow a value does not go on with a fraction. -/
theorem Closes.readFraction_eq : readFraction rest = none := by
  cases rest with
  | nil => rfl
  | cons c rest =>
    have hc : c ≠ '.' := fun heq => h.ne_head (c := '.') (by decide) (by rw [heq, List.head?_cons])
    rw [readFraction]
    intro _ heq
    exact absurd (List.cons.inj heq).1 hc

/-- What can follow a value does not go on with an exponent. -/
theorem Closes.readExponent_eq : readExponent rest = none := by
  cases rest with
  | nil => rfl
  | cons c rest =>
    have hlower : c ≠ 'e' :=
      fun heq => h.ne_head (c := 'e') (by decide) (by rw [heq, List.head?_cons])
    have hupper : c ≠ 'E' :=
      fun heq => h.ne_head (c := 'E') (by decide) (by rw [heq, List.head?_cons])
    simp [readExponent, hlower, hupper]

end Closes

/-! ### The forms of numerals -/

section Numerals

variable (limits : Limits) (negative : Bool) {whole places rest : List Char}

/-- The whole part of a numeral is split off. -/
theorem spanWhole_append (hwhole : Whole whole) (hrest : NoDigit rest) :
    spanWhole (whole ++ rest) = (whole, rest) := by
  rcases hwhole.lead with rfl | hlead
  · rfl
  · rw [spanWhole]
    · exact spanDigits_append hwhole.digits hrest
    · intro _ heq
      have hhead := congrArg List.head? heq
      rw [List.head?_append_of_ne_nil _ hwhole.ne_nil] at hhead
      exact absurd hhead hlead

/-- Digits alone are an integer. -/
theorem readNumber_whole (hwhole : Whole whole) (hrest : Closes rest) :
    readNumber limits negative (whole ++ rest) =
      if limits.digits < whole.length then .error .tooLong
      else
        .ok (.int (if negative then -(digitsValue whole : Int) else digitsValue whole), rest) := by
  have hempty : whole.isEmpty = false := List.isEmpty_eq_false_iff.mpr hwhole.ne_nil
  simp only [readNumber, spanWhole_append hwhole hrest.noDigit]
  simp [hempty, hrest.readFraction_eq, hrest.readExponent_eq]

/-- Digits with places behind a point are a double. -/
theorem readNumber_places (hwhole : Whole whole) (hplaces : Digits places) (hne : places ≠ [])
    (hrest : Closes rest) :
    readNumber limits negative (whole ++ '.' :: (places ++ rest)) =
      .ok (.double (Double.ofDecimal negative (digitsValue (whole ++ places))
        (0 - (places.length : Int))), rest) := by
  have hempty : whole.isEmpty = false := List.isEmpty_eq_false_iff.mpr hwhole.ne_nil
  have hpoint : NoDigit ('.' :: (places ++ rest)) := by
    rintro _ ⟨⟩
    decide
  have hfraction : readFraction ('.' :: (places ++ rest)) = some (places, rest) := by
    simp [readFraction, spanDigits_append hplaces hrest.noDigit, hne]
  simp only [readNumber, spanWhole_append hwhole hpoint]
  simp [hempty, hfraction, hrest.readExponent_eq]

/-- The places of a numeral behind the point, which is left out where there are none. -/
def pointed : List Char → List Char
  | [] => []
  | c :: places => '.' :: c :: places

/-- Digits behind the point are no digits of the number in front of it. -/
theorem noDigit_pointed (hrest : NoDigit rest) : NoDigit (pointed places ++ rest) := by
  cases places with
  | nil => exact hrest
  | cons c places =>
    rintro _ ⟨⟩
    decide

/-- Places are read up to what follows them. -/
theorem readFraction_pointed (hplaces : Digits places) (hrest : NoDigit rest)
    (hpoint : rest.head? ≠ some '.') :
    readFraction (pointed places ++ rest) =
      if places.isEmpty then none else some (places, rest) := by
  cases places with
  | nil =>
    rw [pointed, List.nil_append, readFraction]
    · rfl
    · rintro _ rfl
      exact hpoint rfl
  | cons c places =>
    rw [pointed, List.cons_append, readFraction, spanDigits_append hplaces hrest]

/-- The power of ten that a numeral ends with. -/
def powered (down : Bool) (power : List Char) : List Char :=
  'e' :: (if down then '-' else '+') :: power

/-- An exponent is read with its sign. -/
theorem readExponent_powered (down : Bool) {power : List Char} (hpower : Digits power)
    (hne : power ≠ []) (hrest : NoDigit rest) :
    readExponent (powered down power ++ rest) =
      some (if down then -(digitsValue power : Int) else digitsValue power, rest) := by
  cases down <;> simp [readExponent, powered, spanDigits_append hpower hrest, hne]

/-- Digits with a power of ten behind them are a double. -/
theorem readNumber_power (down : Bool) {power : List Char} (hwhole : Whole whole)
    (hplaces : Digits places) (hpower : Digits power) (hne : power ≠ []) (hrest : Closes rest) :
    readNumber limits negative (whole ++ (pointed places ++ (powered down power ++ rest))) =
      .ok (.double (Double.ofDecimal negative (digitsValue (whole ++ places))
        ((if down then -(digitsValue power : Int) else digitsValue power) - places.length)),
          rest) := by
  have hempty : whole.isEmpty = false := List.isEmpty_eq_false_iff.mpr hwhole.ne_nil
  have hletter : NoDigit (powered down power ++ rest) := by
    rintro _ ⟨⟩
    decide
  have hfraction : readFraction (pointed places ++ (powered down power ++ rest)) = _ :=
    readFraction_pointed hplaces hletter (by simp [powered])
  have hexponent := readExponent_powered down hpower hne hrest.noDigit
  simp only [readNumber, spanWhole_append hwhole (noDigit_pointed hletter), hfraction]
  cases places with
  | nil => simp [hempty, pointed, hexponent]
  | cons c places => simp [hempty, hexponent]

end Numerals

end MarkupRouting.Json
