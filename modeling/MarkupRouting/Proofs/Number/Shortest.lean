import MarkupRouting.Number.Decimal
import MarkupRouting.Proofs.Number.Rounding

/-!
# The shortest decimal reads back

The decimal that is chosen for a double is one that is read as this double: seventeen digits behind
the first one are closer to it than any other double, so that the search finds one.

* **decimalBits_tenfold** — zeros at the end of the units count as the exponent says.
* **finite_magnitude** — a finite double by its units.
* **decimalBits_of_near** — a decimal next to a double is read as it.
* **toDouble_shortest** — the decimal chosen for a double is read as it.
-/

namespace MarkupRouting

namespace Double

/-! ### The bits of a decimal -/

/-- The lower bits of the double nearest to a decimal. -/
def decimalBits (m : ℕ) (e : ℤ) : ℕ :=
  if m = 0 then 0
  else if 400 < (Nat.toDigits 10 m).length + e then infinityBits
  else if (Nat.toDigits 10 m).length + e < -400 then 0
  else if 0 ≤ e then roundBits (m * 10 ^ e.toNat) 1
  else roundBits m (10 ^ (-e).toNat)

/-- Digits with an exponent are rounded to the nearest double. -/
theorem ofDecimal_eq (negative : Bool) (m : ℕ) (e : ℤ) :
    ofDecimal negative m e = make negative (decimalBits m e) := by
  simp only [ofDecimal, decimalBits, Nat.pow_eq, beq_iff_eq]
  split_ifs <;> rfl

/-- One more digit, a zero, is one more digit. -/
theorem length_toDigits_tenfold {m : ℕ} (h : 0 < m) :
    (Nat.toDigits 10 (10 * m)).length = (Nat.toDigits 10 m).length + 1 := by
  rw [← Nat.add_zero (10 * m), ← Nat.toDigits_append_toDigits (by decide) h (by decide)]
  simp

/-- Zeros at the end of the units count as the exponent says. -/
theorem decimalBits_tenfold (m : ℕ) (e : ℤ) : decimalBits (10 * m) (e - 1) = decimalBits m e := by
  rcases Nat.eq_zero_or_pos m with rfl | hm
  · simp [decimalBits]
  have hdigits : ((Nat.toDigits 10 (10 * m)).length : ℤ) + (e - 1) =
      (Nat.toDigits 10 m).length + e := by
    rw [length_toDigits_tenfold hm]
    push_cast
    ring
  have hne : 10 * m ≠ 0 := by omega
  simp only [decimalBits, if_neg hne, if_neg hm.ne', hdigits]
  congr 2
  rcases lt_trichotomy e 0 with he | rfl | he
  · have hpow : (-(e - 1)).toNat = (-e).toNat + 1 := by omega
    rw [if_neg (by omega), if_neg (by omega), hpow]
    exact roundBits_congr (by positivity) (by positivity) (by ring)
  · exact roundBits_congr (by positivity) (by positivity) (by simp; ring)
  · have hpow : e.toNat = (e - 1).toNat + 1 := by omega
    rw [if_pos (by omega), if_pos he.le, hpow]
    exact roundBits_congr (by positivity) (by positivity) (by ring)

/-- Zeros at the end of the units count as the exponent says. -/
theorem decimalBits_zeros (m k : ℕ) (e : ℤ) :
    decimalBits (m * 10 ^ k) (e - k) = decimalBits m e := by
  induction k with
  | zero => simp
  | succ k ih =>
    have hunits : m * 10 ^ (k + 1) = 10 * (m * 10 ^ k) := by ring
    have hexponent : e - ((k + 1 : ℕ) : ℤ) = e - k - 1 := by
      push_cast
      ring
    rw [hunits, hexponent, decimalBits_tenfold, ih]

/-! ### Decimals next to a double -/

/-- A number is at least the power of ten that its digits begin. -/
theorem pow_length_le {m : ℕ} (h : 0 < m) : 10 ^ ((Nat.toDigits 10 m).length - 1) ≤ m := by
  by_contra hlt
  have hpos : 0 < (Nat.toDigits 10 m).length := Nat.length_toDigits_pos
  rcases Nat.eq_zero_or_pos ((Nat.toDigits 10 m).length - 1) with hone | hmore
  · rw [hone] at hlt
    omega
  · have := (Nat.length_toDigits_le_iff (by decide) hmore).mpr (Nat.not_le.mp hlt)
    omega

/-- A number is below the power of ten that it has digits for. -/
theorem lt_pow_length (m : ℕ) : m < 10 ^ (Nat.toDigits 10 m).length :=
  (Nat.length_toDigits_le_iff (by decide) Nat.length_toDigits_pos).mp le_rfl

/-- A decimal has no more digits in front of its point than a power of ten above it has zeros. -/
theorem length_add_le {units : ℕ} {exponent e : ℤ} (hunits : 0 < units)
    (h : (units * 10 ^ exponent : ℚ) < 10 ^ e) :
    (Nat.toDigits 10 units).length + exponent ≤ e := by
  have hpos : 0 < (Nat.toDigits 10 units).length := Nat.length_toDigits_pos
  have hlead : ((10 ^ ((Nat.toDigits 10 units).length - 1) : ℕ) : ℚ) ≤ units := by
    exact_mod_cast pow_length_le hunits
  have hbelow : (10 : ℚ) ^ (((Nat.toDigits 10 units).length : ℤ) - 1 + exponent) ≤
      units * 10 ^ exponent := by
    rw [zpow_add₀ (by norm_num), show ((Nat.toDigits 10 units).length : ℤ) - 1 =
      ((Nat.toDigits 10 units).length - 1 : ℕ) by omega, zpow_natCast]
    push_cast at hlead
    gcongr
  have hexponents := (zpow_lt_zpow_iff_right₀ (by norm_num)).mp (hbelow.trans_lt h)
  omega

/-- A decimal has more digits in front of its point than a power of ten below it has zeros. -/
theorem lt_length_add {units : ℕ} {exponent e : ℤ} (h : (10 : ℚ) ^ e ≤ units * 10 ^ exponent) :
    e < (Nat.toDigits 10 units).length + exponent := by
  have hlead : (units : ℚ) < (10 ^ (Nat.toDigits 10 units).length : ℕ) := by
    exact_mod_cast lt_pow_length units
  have habove : (units * 10 ^ exponent : ℚ) <
      10 ^ (((Nat.toDigits 10 units).length : ℤ) + exponent) := by
    rw [zpow_add₀ (by norm_num), zpow_natCast]
    push_cast at hlead
    gcongr
  exact (zpow_lt_zpow_iff_right₀ (by norm_num)).mp (h.trans_lt habove)

/-- A power of two is no larger than the power of ten of a third of its exponent. -/
theorem two_zpow_le (k : ℕ) : (2 : ℚ) ^ ((3 * k : ℕ) : ℤ) ≤ 10 ^ (k : ℤ) := by
  rw [zpow_natCast, zpow_natCast, pow_mul]
  gcongr
  norm_num

/-- The value of a finite double lies well inside of what decimals are settled without rounding. -/
theorem Finite.value_bounds {m : ℕ} {e : ℤ} (h : Finite m e) :
    (10 : ℚ) ^ (-358 : ℤ) ≤ m * 2 ^ e ∧ (m * 2 ^ e : ℚ) ≤ 10 ^ (342 : ℤ) := by
  obtain ⟨hpos, hlt, hle, -, hbelow⟩ := h
  have he : e ≤ 972 := by
    rw [infinityBits, Nat.pow_eq] at hbelow
    omega
  have hm : (1 : ℚ) ≤ m := by exact_mod_cast hpos
  have hm53 : (m : ℚ) ≤ 2 ^ (53 : ℤ) := by exact_mod_cast hlt.le
  constructor
  · calc (10 : ℚ) ^ (-358 : ℤ) ≤ 2 ^ (-1074 : ℤ) := by
          rw [zpow_neg, zpow_neg]
          exact inv_anti₀ (by positivity) (two_zpow_le 358)
      _ ≤ 2 ^ e := zpow_le_zpow_right₀ (by norm_num) hle
      _ ≤ m * 2 ^ e := le_mul_of_one_le_left (by positivity) hm
  · calc (m * 2 ^ e : ℚ) ≤ 2 ^ (53 : ℤ) * 2 ^ e := by gcongr
      _ = 2 ^ (53 + e) := (zpow_add₀ (by norm_num) _ _).symm
      _ ≤ 2 ^ (1026 : ℤ) := zpow_le_zpow_right₀ (by norm_num) (by omega)
      _ ≤ 10 ^ (342 : ℤ) := two_zpow_le 342

/-- A decimal that is off by less than one part in `2 ^ 55` is read as the double it is next to. -/
theorem decimalBits_of_near {m : ℕ} {e : ℤ} (h : Finite m e) {units : ℕ} {exponent : ℤ}
    (hnear : |(units * 10 ^ exponent : ℚ) - m * 2 ^ e| ≤ m * 2 ^ e / 2 ^ 55) :
    decimalBits units exponent = (e + 1074).toNat * 2 ^ 52 + m := by
  obtain ⟨hlow, hhigh⟩ := h.value_bounds
  obtain ⟨hbelow, habove⟩ := abs_le.mp hnear
  set v : ℚ := m * 2 ^ e with hv
  set w : ℚ := units * 10 ^ exponent with hw
  have hpos : 0 < v := lt_of_lt_of_le (by positivity) hlow
  have hwLow : (10 : ℚ) ^ (-359 : ℤ) ≤ w := by
    have : (10 : ℚ) ^ (-359 : ℤ) = 10 ^ (-358 : ℤ) / 10 := by
      rw [show (-359 : ℤ) = -358 - 1 by norm_num, zpow_sub_one₀ (by norm_num)]
      rfl
    rw [this]
    linarith
  have hwHigh : w < 10 ^ (343 : ℤ) :=
    calc w ≤ 2 * v := by linarith
      _ ≤ 2 * 10 ^ (342 : ℤ) := by gcongr
      _ < 10 * 10 ^ (342 : ℤ) := by
        gcongr
        norm_num
      _ = 10 ^ (343 : ℤ) := by
        rw [show (343 : ℤ) = 1 + 342 by norm_num, zpow_add₀ (by norm_num), zpow_one]
  have hunits : 0 < units := by
    rcases Nat.eq_zero_or_pos units with rfl | h
    · rw [Nat.cast_zero, zero_mul] at hw
      rw [hw] at hwLow
      exact absurd hwLow (not_le.mpr (by positivity))
    · exact h
  have hfew := length_add_le hunits hwHigh
  have hmany := lt_length_add hwLow
  rw [decimalBits, if_neg hunits.ne', if_neg (by omega), if_neg (by omega)]
  split_ifs with hexponent
  · refine roundBits_of_near h (by decide) ?_
    rw [Nat.cast_mul, ← zpow_of_nonneg 10 hexponent, Nat.cast_one, div_one]
    exact hnear
  · refine roundBits_of_near h (by positivity) ?_
    rw [div_eq_mul_inv, ← zpow_of_neg 10 (not_le.mp hexponent)]
    exact hnear

/-! ### Doubles by their bits -/

/-- Rounding does not get beyond infinity. -/
theorem roundBits_le (num den : ℕ) : roundBits num den ≤ infinityBits := by
  rw [roundBits]
  split
  · exact Nat.zero_le _
  · exact min_le_right _ _

/-- Nor does rounding of digits. -/
theorem decimalBits_le (m : ℕ) (e : ℤ) : decimalBits m e ≤ infinityBits := by
  rw [decimalBits]
  split_ifs
  · exact Nat.zero_le _
  · exact le_rfl
  · exact Nat.zero_le _
  · exact roundBits_le _ _
  · exact roundBits_le _ _

/-- The bits a double was made of are its bits. -/
theorem toNat_bits_make {low : ℕ} (h : low < 2 ^ 63) : (make false low).bits.toNat = low := by
  rw [make, if_neg Bool.false_ne_true, UInt64.toNat_ofNat']
  exact Nat.mod_eq_of_lt (by omega)

section Finite

variable {low : ℕ}

/-- The integer and the exponent that bits stand for, with the hidden bit where there is one. -/
theorem magnitude_make (h : low < infinityBits) :
    (make false low).magnitude =
      if low < 2 ^ 52 then (low, -1074)
      else (2 ^ 52 + low % 2 ^ 52, ((low / 2 ^ 52 : ℕ) : ℤ) - 1075) := by
  rw [infinityBits, Nat.pow_eq] at h
  have hbits : (make false low).bits.toNat = low := toNat_bits_make (by omega)
  have hexponent : (make false low).exponentField = low / 2 ^ 52 := by
    rw [exponentField, hbits, Nat.pow_eq, Nat.pow_eq]
    omega
  have hfraction : (make false low).fraction = low % 2 ^ 52 := by
    rw [fraction, hbits, Nat.pow_eq]
  simp only [magnitude, hexponent, hfraction, beq_iff_eq, Nat.pow_eq]
  split_ifs with hzero hfew hfew
  · rw [Nat.mod_eq_of_lt hfew]
  · omega
  · omega
  · rfl

/-- A positive double that is not too large is made of units, and its bits tell which. -/
theorem finite_magnitude (hpos : 0 < low) (h : low < infinityBits) :
    Finite (make false low).magnitude.1 (make false low).magnitude.2 ∧
      ((make false low).magnitude.2 + 1074).toNat * 2 ^ 52 + (make false low).magnitude.1 =
        low := by
  rw [magnitude_make h]
  have hbits := h
  rw [infinityBits, Nat.pow_eq] at hbits
  split_ifs with hfew
  · refine ⟨⟨hpos, by omega, le_rfl, .inl rfl, ?_⟩, ?_⟩
    · simpa using h
    · simp
  · have hexponent : (((low / 2 ^ 52 : ℕ) : ℤ) - 1075 + 1074).toNat = low / 2 ^ 52 - 1 := by omega
    have hsum : (low / 2 ^ 52 - 1) * 2 ^ 52 + (2 ^ 52 + low % 2 ^ 52) = low := by omega
    refine ⟨⟨by omega, by omega, by omega, .inr (by omega), ?_⟩, ?_⟩
    · rw [hexponent, hsum]
      exact h
    · rw [hexponent, hsum]

/-- The quotient that a positive double is taken for has its value. -/
theorem toFraction_make (h : low < infinityBits) :
    0 < (make false low).toFraction.2 ∧
      ((make false low).toFraction.1.natAbs / (make false low).toFraction.2 : ℚ) =
        (make false low).magnitude.1 * 2 ^ (make false low).magnitude.2 := by
  have hsign : (make false low).negative = false := by
    rw [infinityBits, Nat.pow_eq] at h
    rw [negative, toNat_bits_make (by omega), Nat.pow_eq, Nat.div_eq_of_lt (by omega)]
    rfl
  rw [toFraction]
  generalize (make false low).magnitude = units
  obtain ⟨m, e⟩ := units
  simp only [hsign, Nat.pow_eq, Bool.false_eq_true, if_false]
  split_ifs with he
  · have hscale := zpow_of_nonneg 2 he
    refine ⟨Nat.one_pos, ?_⟩
    rw [Int.natAbs_natCast, Nat.cast_mul, ← hscale]
    simp
  · have hscale := zpow_of_neg 2 (not_le.mp he)
    refine ⟨Nat.pow_pos Nat.two_pos, ?_⟩
    rw [Int.natAbs_natCast, div_eq_mul_inv, ← hscale]
    rfl

end Finite

end Double

/-! ### The search -/

namespace Decimal

open Double

variable {num den : ℕ}

/-- The power of ten of a quotient, read off the numbers of digits of its parts. -/
theorem floorLogTen_eq (num den : ℕ) :
    floorLogTen num den =
      quotientLog 10 ((Nat.toDigits 10 num).length - 1) ((Nat.toDigits 10 den).length - 1) num
        den := by
  have hpos : ∀ n, 0 < (Nat.toDigits 10 n).length := fun _ => Nat.length_toDigits_pos
  have hguess :
      (((Nat.toDigits 10 num).length - 1 : ℕ) : ℤ) - ((Nat.toDigits 10 den).length - 1 : ℕ) =
      (Nat.toDigits 10 num).length - (Nat.toDigits 10 den).length := by
    have := hpos num
    have := hpos den
    omega
  simp only [floorLogTen, quotientLog, Nat.pow_eq, hguess]
  by_cases h : 0 ≤ ((Nat.toDigits 10 num).length : ℤ) - (Nat.toDigits 10 den).length
  · simp only [if_pos h, decide_eq_true_eq]
  · simp only [if_neg h, decide_eq_true_eq]

/-- A quotient lies between the power of its decimal exponent and the next one. -/
theorem floorLogTen_spec (hnum : 0 < num) (hden : 0 < den) :
    (10 : ℚ) ^ floorLogTen num den ≤ num / den ∧
      (num / den : ℚ) < 10 ^ (floorLogTen num den + 1) := by
  have hlog : ∀ {n : ℕ}, 0 < n → 10 ^ ((Nat.toDigits 10 n).length - 1) ≤ n ∧
      n < 10 ^ ((Nat.toDigits 10 n).length - 1 + 1) := by
    intro n hn
    rw [Nat.sub_add_cancel Nat.length_toDigits_pos]
    exact ⟨pow_length_le hn, lt_pow_length n⟩
  rw [floorLogTen_eq]
  exact_mod_cast quotientLog_spec 10 (by decide) (hlog hnum) (hlog hden)

/-- The smaller one of the two decimals next to a quotient. -/
theorem exists_neighbour (num : ℕ) (hden : 0 < den) (e : ℤ) :
    ∃ d ∈ neighbours num den e, (d.units * 10 ^ e : ℚ) ≤ num / den ∧
      (num / den : ℚ) ≤ d.units * 10 ^ e + 10 ^ e ∧ d.exponent = e := by
  have hscale : (0 : ℚ) < 10 ^ e := by positivity
  obtain ⟨scaledNum, scaledDen, hpair, hpos, hvalue⟩ : ∃ n d : ℕ,
      (if 0 ≤ e then (num, den * Nat.pow 10 e.toNat) else (num * Nat.pow 10 (-e).toNat, den)) =
        (n, d) ∧ 0 < d ∧ (n / d : ℚ) = num / den / 10 ^ e := by
    split_ifs with h
    · refine ⟨_, _, rfl, Nat.mul_pos hden (Nat.pow_pos (by decide)), ?_⟩
      have hpow := zpow_of_nonneg 10 h
      rw [Nat.cast_mul, Nat.pow_eq, ← hpow, div_div]
      rfl
    · refine ⟨_, _, rfl, hden, ?_⟩
      have hpow := zpow_of_neg 10 (not_le.mp h)
      have hten : ((10 : ℕ) : ℚ) = 10 := by norm_num
      rw [← hten, hpow, div_inv_eq_mul, Nat.cast_mul, Nat.pow_eq]
      ring
  have hfloor : ((scaledNum / scaledDen : ℕ) : ℚ) ≤ scaledNum / scaledDen := Nat.cast_div_le
  have hnext : (scaledNum / scaledDen : ℚ) ≤ (scaledNum / scaledDen : ℕ) + 1 := by
    rw [div_le_iff₀ (by exact_mod_cast hpos)]
    exact_mod_cast (Nat.lt_mul_div_succ scaledNum hpos).le.trans_eq (Nat.mul_comm _ _)
  refine ⟨⟨scaledNum / scaledDen, e⟩, ?_, ?_, ?_, rfl⟩
  · simp only [neighbours, hpair]
    split_ifs <;> simp
  · rwa [hvalue, le_div_iff₀ hscale] at hfloor
  · rwa [hvalue, div_le_iff₀ hscale, add_mul, one_mul] at hnext

/-- If one of the decimals tried reads back, the one that is found does. -/
theorem search_reads {x : Double} {leading : ℤ} {k : ℕ} :
    ∀ {fuel digits : ℕ}, digits ≤ k → k < digits + fuel →
      (∃ d ∈ neighbours num den (leading - k), d.toDouble = x) →
      (search x num den leading fuel digits).toDouble = x
  | 0, _, hfrom, hupto, _ => absurd hupto (by omega)
  | fuel + 1, digits, hfrom, hupto, hreads => by
    rw [search]
    split
    · next d hfound =>
      have hback := List.find?_some hfound
      exact beq_iff_eq.mp hback
    · next hnone =>
      refine search_reads ?_ (by omega) hreads
      refine Nat.lt_of_le_of_ne hfrom ?_
      rintro rfl
      obtain ⟨d, hd, hback⟩ := hreads
      exact absurd (beq_iff_eq.mpr hback) (List.find?_eq_none.mp hnone d hd)

section Shortest

variable {low : ℕ} (hpos : 0 < low) (h : low < infinityBits)

include hpos h

/-- Seventeen digits behind the first one are closer to a double than any other double. -/
theorem exists_reads :
    ∃ d ∈ neighbours (make false low).toFraction.1.natAbs (make false low).toFraction.2
        (floorLogTen (make false low).toFraction.1.natAbs (make false low).toFraction.2 - (17 : ℕ)),
      d.toDouble = make false low := by
  obtain ⟨hfinite, hlow⟩ := finite_magnitude hpos h
  obtain ⟨hden, hvalue⟩ := toFraction_make h
  set x := make false low
  set v : ℚ := x.magnitude.1 * 2 ^ x.magnitude.2 with hv
  have hvpos : 0 < v := mul_pos (by exact_mod_cast hfinite.pos) (by positivity)
  have hnum : 0 < x.toFraction.1.natAbs := by
    rw [Nat.pos_iff_ne_zero]
    intro hzero
    rw [hzero, Nat.cast_zero, zero_div] at hvalue
    exact hvpos.ne hvalue
  have hleading := (floorLogTen_spec hnum hden).1
  rw [hvalue] at hleading
  set leading := floorLogTen x.toFraction.1.natAbs x.toFraction.2
  obtain ⟨d, hd, hbelow, habove, hexponent⟩ :=
    exists_neighbour x.toFraction.1.natAbs hden (leading - (17 : ℕ))
  rw [hvalue] at hbelow habove
  have hunit : (10 : ℚ) ^ (leading - (17 : ℕ)) ≤ v / 2 ^ 55 := by
    rw [zpow_sub₀ (by norm_num), zpow_natCast]
    calc (10 : ℚ) ^ leading / 10 ^ 17 ≤ v / 10 ^ 17 := by gcongr
      _ ≤ v / 2 ^ 55 := by
        gcongr
        norm_num
  have hnear : |d.units * (10 : ℚ) ^ (leading - (17 : ℕ)) - v| ≤ v / 2 ^ 55 := by
    generalize (10 : ℚ) ^ (leading - (17 : ℕ)) = unit at hbelow habove hunit ⊢
    rw [abs_le]
    constructor <;> linarith
  refine ⟨d, hd, ?_⟩
  rw [toDouble, ofDecimal_eq, hexponent, decimalBits_of_near hfinite hnear, hlow]

/-- The decimal chosen for a double is read as it. -/
theorem toDouble_shortest : (shortest (make false low)).toDouble = make false low :=
  search_reads (Nat.zero_le 17) (by decide) (exists_reads hpos h)

/-- The decimal chosen for a double has its bits. -/
theorem bits_shortest :
    decimalBits (shortest (make false low)).units (shortest (make false low)).exponent = low := by
  have hread := toDouble_shortest hpos h
  have hinfinity : infinityBits < 2 ^ 63 := by decide
  rw [toDouble, ofDecimal_eq] at hread
  have hbits := congrArg (fun x => x.bits.toNat) hread
  rwa [toNat_bits_make ((decimalBits_le _ _).trans_lt hinfinity),
    toNat_bits_make (by omega)] at hbits

end Shortest

/-! ### Zeros at the end -/

/-- Without the zeros at its end a decimal is read as before. -/
theorem bits_stripZeros (fuel : ℕ) (d : Decimal) :
    decimalBits (stripZeros fuel d).units (stripZeros fuel d).exponent =
      decimalBits d.units d.exponent := by
  induction fuel generalizing d with
  | zero => rfl
  | succ fuel ih =>
    rw [stripZeros]
    split
    · next hzero =>
      rw [Bool.and_eq_true, beq_iff_eq] at hzero
      have hunits : d.units = 10 * (d.units / 10) := by omega
      rw [ih]
      conv_rhs => rw [hunits, ← add_sub_cancel_right d.exponent 1, decimalBits_tenfold]
    · rfl

/-- Dropping zeros at the end does not make zero of a number. -/
theorem units_stripZeros_ne_zero (fuel : ℕ) {d : Decimal} (h : d.units ≠ 0) :
    (stripZeros fuel d).units ≠ 0 := by
  induction fuel generalizing d with
  | zero => exact h
  | succ fuel ih =>
    rw [stripZeros]
    split
    · next hzero =>
      rw [Bool.and_eq_true, beq_iff_eq] at hzero
      exact ih (by simp only; omega)
    · exact h

end Decimal

end MarkupRouting
