import MarkupRouting.Number.Double
import Mathlib.Algebra.Order.Field.Power
import Mathlib.Data.Rat.Cast.Order
import Mathlib.Tactic

/-!
# Rounding to doubles

The double nearest to a quotient depends on what the quotient is and not on how it is written, and
whatever lies close enough to a double is rounded to it.

* **floorLog_spec** — the binary exponent of a quotient.
* **abs_roundDiv_sub_le** — a rounded quotient is off by a half at most.
* **roundBits_congr** — equal quotients are rounded alike.
* **roundBits_of_near** — a quotient that is off by less than one part in `2 ^ 55` is rounded to the
  double it is next to.
-/

namespace MarkupRouting.Double

variable {num den : ℕ}

/-! ### Powers as scales -/

/-- The scale of a whole power. -/
theorem zpow_of_nonneg (base : ℕ) {e : ℤ} (h : 0 ≤ e) :
    (base : ℚ) ^ e = (base ^ e.toNat : ℕ) := by
  obtain ⟨k, rfl⟩ := Int.eq_ofNat_of_zero_le h
  simp

/-- The scale of a negative power. -/
theorem zpow_of_neg (base : ℕ) {e : ℤ} (h : e < 0) :
    (base : ℚ) ^ e = ((base ^ (-e).toNat : ℕ) : ℚ)⁻¹ := by
  rw [← zpow_of_nonneg base (by omega), zpow_neg, inv_inv]

/-- Of two exponents of which one power is below a number and the next power of the other one above
it the first is not larger. -/
theorem le_of_zpow_lt {base q : ℚ} (hbase : 1 < base) {d e : ℤ} (hlow : base ^ d ≤ q)
    (hhigh : q < base ^ (e + 1)) : d ≤ e :=
  Int.lt_add_one_iff.mp ((zpow_lt_zpow_iff_right₀ hbase).mp (hlow.trans_lt hhigh))

/-- Exponents between which and the next ones one number lies are equal. -/
theorem eq_of_zpow {base q : ℚ} (hbase : 1 < base) {d e : ℤ}
    (hd : base ^ d ≤ q ∧ q < base ^ (d + 1)) (he : base ^ e ≤ q ∧ q < base ^ (e + 1)) : d = e :=
  le_antisymm (le_of_zpow_lt hbase hd.1 he.2) (le_of_zpow_lt hbase he.1 hd.2)

/-- A quotient has reached a power if it has, multiplied out. -/
theorem zpow_le_div_iff (num base : ℕ) (hbase : 0 < base) (hden : 0 < den) (e : ℤ) :
    (base : ℚ) ^ e ≤ num / den ↔
      if 0 ≤ e then den * base ^ e.toNat ≤ num else den ≤ num * base ^ (-e).toNat := by
  have hden' : (0 : ℚ) < den := by exact_mod_cast hden
  rw [le_div_iff₀ hden']
  split_ifs with h
  · rw [zpow_of_nonneg base h, mul_comm]
    exact_mod_cast Iff.rfl
  · have hpow : (0 : ℚ) < (base ^ (-e).toNat : ℕ) := by exact_mod_cast Nat.pow_pos hbase
    rw [zpow_of_neg base (Int.not_le.mp h), inv_mul_le_iff₀ hpow, mul_comm]
    exact_mod_cast Iff.rfl

/-! ### Exponents of quotients -/

/-- The exponent that two numbers of which the leading digits are known leave to their quotient: the
guess that the digits allow, or one less where the quotient has not reached it. -/
def quotientLog (base a b num den : ℕ) : ℤ :=
  let guess : ℤ := (a : ℤ) - b
  if (if 0 ≤ guess then den * base ^ guess.toNat ≤ num else den ≤ num * base ^ (-guess).toNat)
  then guess else guess - 1

/-- A quotient lies between the power of its exponent and the next one. -/
theorem quotientLog_spec (base : ℕ) {a b : ℕ} (hbase : 1 < base)
    (hnum : base ^ a ≤ num ∧ num < base ^ (a + 1)) (hden : base ^ b ≤ den ∧ den < base ^ (b + 1)) :
    (base : ℚ) ^ quotientLog base a b num den ≤ num / den ∧
      (num / den : ℚ) < base ^ (quotientLog base a b num den + 1) := by
  have hbase' : (base : ℚ) ≠ 0 := by exact_mod_cast (by omega : base ≠ 0)
  have hdenPos : 0 < den := (Nat.pow_pos (by omega)).trans_le hden.1
  have hden' : (0 : ℚ) < den := by exact_mod_cast hdenPos
  set guess : ℤ := (a : ℤ) - b with hguess
  have hlow : (base : ℚ) ^ (guess - 1) ≤ num / den := by
    rw [le_div_iff₀ hden']
    calc (base : ℚ) ^ (guess - 1) * den ≤ base ^ (guess - 1) * base ^ (b + 1) := by
          gcongr
          exact_mod_cast hden.2.le
      _ = base ^ a := by
        rw [← zpow_natCast, ← zpow_add₀ hbase', ← zpow_natCast]
        congr 1
        push_cast
        omega
      _ ≤ num := by exact_mod_cast hnum.1
  have hhigh : (num / den : ℚ) < base ^ (guess + 1) := by
    rw [div_lt_iff₀ hden']
    calc (num : ℚ) < base ^ (a + 1) := by exact_mod_cast hnum.2
      _ = base ^ (guess + 1) * base ^ b := by
        rw [← zpow_natCast, ← zpow_natCast, ← zpow_add₀ hbase']
        congr 1
        push_cast
        omega
      _ ≤ base ^ (guess + 1) * den := by
        gcongr
        exact_mod_cast hden.1
  have hreached := zpow_le_div_iff num base (by omega) hdenPos guess
  by_cases hreach : (base : ℚ) ^ guess ≤ num / den
  · have heq : quotientLog base a b num den = guess := if_pos (hreached.mp hreach)
    rw [heq]
    exact ⟨hreach, hhigh⟩
  · have heq : quotientLog base a b num den = guess - 1 := if_neg (mt hreached.mpr hreach)
    rw [heq, sub_add_cancel]
    exact ⟨hlow, not_le.mp hreach⟩

/-- The exponent of a quotient, read off the lengths of its parts in bits. -/
theorem floorLog_eq (num den : ℕ) :
    floorLog num den = quotientLog 2 (Nat.log2 num) (Nat.log2 den) num den := by
  simp only [floorLog, quotientLog, Nat.pow_eq]
  by_cases h : 0 ≤ (Nat.log2 num : ℤ) - Nat.log2 den
  · simp only [if_pos h, decide_eq_true_eq]
  · simp only [if_neg h, decide_eq_true_eq]

/-- A quotient lies between the power of its binary exponent and the next one. -/
theorem floorLog_spec (hnum : 0 < num) (hden : 0 < den) :
    (2 : ℚ) ^ floorLog num den ≤ num / den ∧ (num / den : ℚ) < 2 ^ (floorLog num den + 1) := by
  have hlog : ∀ {n : ℕ}, 0 < n → 2 ^ Nat.log2 n ≤ n ∧ n < 2 ^ (Nat.log2 n + 1) :=
    fun hn => ⟨Nat.log2_self_le hn.ne', Nat.lt_log2_self⟩
  rw [floorLog_eq]
  exact_mod_cast quotientLog_spec 2 (by decide) (hlog hnum) (hlog hden)

/-- The binary exponent belongs to the value of a quotient. -/
theorem floorLog_mul_right (hnum : 0 < num) (hden : 0 < den) {k : ℕ} (hk : 0 < k) :
    floorLog (num * k) (den * k) = floorLog num den := by
  have hvalue : ((num * k : ℕ) / (den * k : ℕ) : ℚ) = num / den := by
    push_cast
    exact mul_div_mul_right _ _ (by exact_mod_cast hk.ne')
  have hscaled := floorLog_spec (Nat.mul_pos hnum hk) (Nat.mul_pos hden hk)
  rw [hvalue] at hscaled
  exact eq_of_zpow (by norm_num) hscaled (floorLog_spec hnum hden)

/-! ### Rounded quotients -/

/-- A rounded quotient is off by a half at most. -/
theorem abs_roundDiv_sub_le (num : ℕ) (hden : 0 < den) :
    |(roundDiv num den : ℚ) - num / den| ≤ 1 / 2 := by
  have hden' : (0 : ℚ) < den := by exact_mod_cast hden
  have hsplit : (num : ℚ) = den * (num / den : ℕ) + (num % den : ℕ) := by
    exact_mod_cast (Nat.div_add_mod num den).symm
  have hquot : (num / den : ℚ) = (num / den : ℕ) + (num % den : ℕ) / den := by
    rw [hsplit]
    field_simp
  have hrest : (0 : ℚ) ≤ (num % den : ℕ) / den := by positivity
  have hhalf : ∀ {r : ℕ}, (2 * r ≤ den → (r / den : ℚ) ≤ 1 / 2) ∧
      (den ≤ 2 * r → 1 / 2 ≤ (r / den : ℚ)) := by
    refine fun {r} => ⟨fun h => ?_, fun h => ?_⟩
    · rw [div_le_div_iff₀ hden' (by norm_num)]
      exact_mod_cast (by omega : r * 2 ≤ 1 * den)
    · rw [div_le_div_iff₀ (by norm_num) hden']
      exact_mod_cast (by omega : 1 * den ≤ r * 2)
  have hone : ((num % den : ℕ) / den : ℚ) ≤ 1 := by
    rw [div_le_one hden']
    exact_mod_cast (Nat.mod_lt num hden).le
  rw [hquot, abs_le, roundDiv]
  split_ifs with hbelow habove heven
  · have := hhalf.1 hbelow.le
    constructor <;> linarith
  · have := hhalf.2 habove.le
    push_cast
    constructor <;> linarith
  · have := hhalf.1 (Nat.not_lt.mp habove)
    constructor <;> linarith
  · have := hhalf.2 (Nat.not_lt.mp hbelow)
    push_cast
    constructor <;> linarith

/-- What is off from a whole number by less than a half is rounded to it. -/
theorem eq_of_abs_sub_lt {m n : ℕ} {q : ℚ} (hround : |(m : ℚ) - q| ≤ 1 / 2)
    (hnear : |q - n| < 1 / 2) : m = n := by
  have hsum : |(m : ℚ) - n| < 1 :=
    calc |(m : ℚ) - n| ≤ |(m : ℚ) - q| + |q - n| := abs_sub_le _ _ _
      _ < 1 := by linarith
  have hint : |(m : ℤ) - n| < 1 := by exact_mod_cast hsum
  rw [Int.abs_lt_one_iff] at hint
  omega

/-- A rounded quotient belongs to the value of the quotient. -/
theorem roundDiv_mul_right {k : ℕ} (hk : 0 < k) :
    roundDiv (num * k) (den * k) = roundDiv num den := by
  have hlt : ∀ a b : ℕ, a * k < b * k ↔ a < b := fun _ _ => Nat.mul_lt_mul_right hk
  simp only [roundDiv, Nat.mul_div_mul_right _ _ hk, Nat.mul_mod_mul_right, ← Nat.mul_assoc, hlt]

/-! ### The bits of a rounded quotient -/

/-- The whole number of units `2 ^ unit` next to a quotient. -/
def unitsOf (num den : ℕ) (unit : ℤ) : ℕ :=
  if 0 ≤ unit then roundDiv num (den * 2 ^ unit.toNat) else roundDiv (num * 2 ^ (-unit).toNat) den

/-- The exponent of the last bit of a quotient. -/
def unitOf (num den : ℕ) : ℤ := max (-1074) (floorLog num den - 52)

/-- A quotient in units is off by half a unit at most. -/
theorem abs_unitsOf_sub_le (num : ℕ) (hden : 0 < den) (unit : ℤ) :
    |(unitsOf num den unit : ℚ) - num / den / 2 ^ unit| ≤ 1 / 2 := by
  rw [unitsOf]
  split_ifs with h
  · have hscale := zpow_of_nonneg 2 h
    have hscaled : 0 < den * 2 ^ unit.toNat := by positivity
    have hround := abs_roundDiv_sub_le num hscaled
    rwa [Nat.cast_mul, ← hscale, ← div_div] at hround
  · have hscale := zpow_of_neg 2 (Int.not_le.mp h)
    have hround := abs_roundDiv_sub_le (num * 2 ^ (-unit).toNat) hden
    have hvalue : ((num * 2 ^ (-unit).toNat : ℕ) / den : ℚ) = num / den / 2 ^ unit := by
      have h2 : ((2 : ℕ) : ℚ) = 2 := by norm_num
      rw [← h2, hscale, div_inv_eq_mul, Nat.cast_mul]
      ring
    rwa [hvalue] at hround

/-- A quotient fills its units, unless the last bit is the last one of all doubles. -/
theorem le_unitsOf (hnum : 0 < num) (hden : 0 < den) (h : unitOf num den ≠ -1074) :
    2 ^ 52 ≤ unitsOf num den (unitOf num den) := by
  have hunit : unitOf num den = floorLog num den - 52 := by
    rcases max_choice (-1074) (floorLog num den - 52) with hmax | hmax
    · exact absurd hmax h
    · exact hmax
  have hfull : (2 : ℚ) ^ 52 ≤ num / den / 2 ^ unitOf num den := by
    have hsum : ((52 : ℕ) : ℤ) + (floorLog num den - 52) = floorLog num den := by
      push_cast
      ring
    rw [le_div_iff₀ (by positivity), ← zpow_natCast, ← zpow_add₀ (by norm_num), hunit, hsum]
    exact (floorLog_spec hnum hden).1
  have hround := abs_le.mp (abs_unitsOf_sub_le num hden (unitOf num den))
  have hlt : ((2 ^ 52 : ℕ) : ℚ) < unitsOf num den (unitOf num den) + 1 := by
    push_cast
    linarith [hround.1]
  exact Nat.lt_succ_iff.mp (by exact_mod_cast hlt)

/-- A rounded quotient is put together of its exponent and its units. -/
theorem roundBits_eq (hnum : 0 < num) (hden : 0 < den) :
    roundBits num den =
      min ((unitOf num den + 1074).toNat * 2 ^ 52 + unitsOf num den (unitOf num den))
        infinityBits := by
  have hzero : (num == 0) = false := beq_eq_false_iff_ne.mpr hnum.ne'
  have hbits : roundBits num den =
      min (if unitsOf num den (unitOf num den) < 2 ^ 52 then unitsOf num den (unitOf num den)
        else (unitOf num den + 1075).toNat * 2 ^ 52 +
          (unitsOf num den (unitOf num den) - 2 ^ 52)) infinityBits := by
    rw [roundBits, hzero]
    rfl
  have hlow : -1074 ≤ unitOf num den := le_max_left _ _
  rw [hbits]
  congr 1
  split_ifs with hfew
  · have hlast : unitOf num den = -1074 := by
      by_contra h
      exact absurd (le_unitsOf hnum hden h) (Nat.not_le.mpr hfew)
    simp [hlast]
  · have hsucc : (unitOf num den + 1075).toNat = (unitOf num den + 1074).toNat + 1 := by omega
    rw [hsucc]
    omega

/-- Equal quotients are rounded alike. -/
theorem roundBits_congr {num' den' : ℕ} (hden : 0 < den) (hden' : 0 < den')
    (h : num * den' = num' * den) : roundBits num den = roundBits num' den' := by
  have hscale : ∀ {n d k : ℕ}, 0 < d → 0 < k → roundBits (n * k) (d * k) = roundBits n d := by
    intro n d k hd hk
    rcases Nat.eq_zero_or_pos n with rfl | hn
    · simp [roundBits]
    · have hunit : unitOf (n * k) (d * k) = unitOf n d := by
        rw [unitOf, unitOf, floorLog_mul_right hn hd hk]
      have hunits : unitsOf (n * k) (d * k) (unitOf n d) = unitsOf n d (unitOf n d) := by
        rw [unitsOf, unitsOf, Nat.mul_right_comm d, Nat.mul_right_comm n, roundDiv_mul_right hk,
          roundDiv_mul_right hk]
      rw [roundBits_eq (Nat.mul_pos hn hk) (Nat.mul_pos hd hk), roundBits_eq hn hd, hunit, hunits]
  rw [← hscale hden hden', h, Nat.mul_comm den, hscale hden' hden]

/-! ### Quotients next to a double -/

/-- Doubles by their units: `m` units of `2 ^ e`, where only the last exponent has few units. -/
structure Finite (m : ℕ) (e : ℤ) : Prop where
  /-- There is a unit. -/
  pos : 0 < m
  /-- There are not too many. -/
  lt : m < 2 ^ 53
  /-- The exponent is not below the last one. -/
  le : -1074 ≤ e
  /-- The units fill the fraction, unless there is no smaller exponent. -/
  full : e = -1074 ∨ 2 ^ 52 ≤ m
  /-- The double is no infinity. -/
  below : (e + 1074).toNat * 2 ^ 52 + m < infinityBits

/-- The last bit of a quotient next to a double is that of the double, or one below where the double
is a power of two. -/
theorem Finite.unitOf_eq {m : ℕ} {e : ℤ} (h : Finite m e) (hnum : 0 < num) (hden : 0 < den)
    (hnear : |(num / den / 2 ^ e : ℚ) - m| ≤ m / 2 ^ 55) :
    unitOf num den = e ∨ unitOf num den = e - 1 ∧ m = 2 ^ 52 := by
  obtain ⟨-, hlt, hle, hfull, -⟩ := h
  have hm53 : (m : ℚ) + 1 ≤ 2 ^ 53 := by exact_mod_cast hlt
  obtain ⟨hlow, hhigh⟩ := abs_le.mp hnear
  obtain ⟨hfloor, hceil⟩ := floorLog_spec hnum hden
  set q : ℚ := num / den / 2 ^ e with hq
  have hvalue : (num / den : ℚ) = q * 2 ^ e := by
    rw [hq]
    field_simp
  rw [hvalue] at hfloor hceil
  have hupper : floorLog num den ≤ e + 52 := by
    refine le_of_zpow_lt (by norm_num) hfloor ?_
    rw [show e + 52 + 1 = (53 : ℕ) + e by push_cast; ring, zpow_add₀ (by norm_num), zpow_natCast]
    gcongr
    linarith
  have hleast : ∀ {k : ℕ}, (2 : ℚ) ^ k ≤ q → e + k ≤ floorLog num den := by
    intro k hk
    refine le_of_zpow_lt (q := q * 2 ^ e) (by norm_num) ?_ hceil
    rw [zpow_add₀ (by norm_num), zpow_natCast, mul_comm]
    gcongr
  rw [unitOf]
  rcases hfull with rfl | hfull
  · left
    omega
  · have hm52 : (2 : ℚ) ^ 52 ≤ m := by exact_mod_cast hfull
    rcases Nat.eq_or_lt_of_le hfull with heq | hmore
    · have := hleast (k := 51) (by linarith)
      omega
    · have hm52' : (2 : ℚ) ^ 52 + 1 ≤ m := by exact_mod_cast hmore
      have := hleast (k := 52) (by linarith)
      omega

/-- A quotient that is off by less than one part in `2 ^ 55` is rounded to the double it is next
to. -/
theorem roundBits_of_near {m : ℕ} {e : ℤ} (h : Finite m e) (hden : 0 < den)
    (hnear : |(num / den : ℚ) - m * 2 ^ e| ≤ m * 2 ^ e / 2 ^ 55) :
    roundBits num den = (e + 1074).toNat * 2 ^ 52 + m := by
  have hscale : (0 : ℚ) < 2 ^ e := by positivity
  have hunits : |(num / den / 2 ^ e : ℚ) - m| ≤ m / 2 ^ 55 := by
    have hfactor : (num / den / 2 ^ e : ℚ) - m = (num / den - m * 2 ^ e) / 2 ^ e := by
      field_simp
    rw [hfactor, abs_div, abs_of_pos hscale, div_le_iff₀ hscale, div_mul_eq_mul_div]
    exact hnear
  have hm : (0 : ℚ) < m := by exact_mod_cast h.pos
  have hm53 : (m : ℚ) < 2 ^ 53 := by exact_mod_cast h.lt
  have hnum : 0 < num := by
    rcases Nat.eq_zero_or_pos num with rfl | hpos
    · rw [Nat.cast_zero, zero_div, zero_div, zero_sub, abs_neg, abs_of_pos hm] at hunits
      linarith
    · exact hpos
  have hround := abs_unitsOf_sub_le num hden (unitOf num den)
  rw [roundBits_eq hnum hden]
  rcases h.unitOf_eq hnum hden hunits with hunit | ⟨hunit, rfl⟩
  · rw [hunit] at hround ⊢
    rw [eq_of_abs_sub_lt hround (n := m)]
    · exact min_eq_left h.below.le
    · exact hunits.trans_lt (by linarith)
  · -- The double is the least one of its exponent, and the quotient may lie below it, where there
    -- are twice as many units.
    rw [hunit] at hround ⊢
    have hhalved : (num / den / 2 ^ (e - 1) : ℚ) = 2 * (num / den / 2 ^ e) := by
      rw [zpow_sub_one₀ (by norm_num)]
      field_simp
    have htwice : |2 * (num / den / 2 ^ e : ℚ) - ((2 ^ 53 : ℕ) : ℚ)| < 1 / 2 := by
      have heq : 2 * (num / den / 2 ^ e : ℚ) - ((2 ^ 53 : ℕ) : ℚ) =
          2 * (num / den / 2 ^ e - (2 ^ 52 : ℕ)) := by
        push_cast
        ring
      rw [heq, abs_mul, abs_two]
      push_cast at hunits ⊢
      linarith
    rw [hhalved] at hround
    rw [eq_of_abs_sub_lt hround htwice]
    have hlast : -1074 ≤ e - 1 := hunit ▸ le_max_left _ _
    have hsucc : (e + 1074).toNat = (e - 1 + 1074).toNat + 1 := by omega
    have hbelow := h.below
    rw [hsucc] at hbelow ⊢
    omega

end MarkupRouting.Double
