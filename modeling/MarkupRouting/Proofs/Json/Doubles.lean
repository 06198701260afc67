import MarkupRouting.Json.Writer
import MarkupRouting.Proofs.Json.Numbers
import MarkupRouting.Proofs.Number.Shortest

/-!
# JSON doubles read back

A double is written positionally or with an exponent, and read as itself from either form.

* **Decimal.readNumber_render** — a decimal in any layout is read as the double it stands for.
* **Double.readNumber_body** — a finite double without its sign is read as itself, whichever sign it
  is given.
-/

namespace MarkupRouting

open Json Double

variable (limits : Limits) (negative : Bool) {rest : List Char}

/-! ### Digits around the point -/

section Digits

variable {n : ℕ} (hn : n ≠ 0)

include hn

/-- The first digits of a number may stand in front of a point, with zeros behind them. -/
theorem whole_take {k : ℕ} (hk : 0 < k) (zeros : ℕ) :
    Whole ((Nat.toDigits 10 n).take k ++ List.replicate zeros '0') := by
  have hne : (Nat.toDigits 10 n).take k ≠ [] := by
    rw [Ne, List.take_eq_nil_iff, not_or]
    exact ⟨hk.ne', (whole_toDigits n).ne_nil⟩
  refine ⟨?_, List.append_ne_nil_of_left_ne_nil hne _, .inr ?_⟩
  · have htaken : Digits ((Nat.toDigits 10 n).take k) :=
      fun c hc => digits_toDigits n c (List.mem_of_mem_take hc)
    exact htaken.append (digits_zeros zeros)
  · rw [List.head?_append_of_ne_nil _ hne, List.head?_take, if_neg hk.ne']
    exact head_toDigits_ne_zero hn

end Digits

namespace Decimal

section Forms

variable {d : Decimal} {leading : ℤ}
  (hleading : d.exponent + ((Nat.toDigits 10 d.units).length : ℤ) - 1 = leading)

include hleading

/-- A decimal below one, with zeros in front of its digits. -/
theorem readNumber_below_one (hneg : leading < 0) (hrest : Closes rest) :
    readNumber limits negative
        (['0'] ++ '.' ::
          (List.replicate (-leading - 1).toNat '0' ++ Nat.toDigits 10 d.units ++ rest)) =
      .ok (.double (ofDecimal negative d.units d.exponent), rest) := by
  have hwhole : Whole ['0'] := whole_toDigits 0
  have hplaces := (digits_zeros (-leading - 1).toNat).append (digits_toDigits d.units)
  have hne := List.append_ne_nil_of_right_ne_nil (List.replicate (-leading - 1).toNat '0')
    (whole_toDigits d.units).ne_nil
  have hexponent : 0 - ((List.replicate (-leading - 1).toNat '0' ++
      Nat.toDigits 10 d.units).length : ℤ) = d.exponent := by
    rw [List.length_append, List.length_replicate]
    push_cast
    omega
  rw [readNumber_places limits negative hwhole hplaces hne hrest, hexponent, ← List.append_assoc,
    show ['0'] ++ List.replicate (-leading - 1).toNat '0' =
      List.replicate ((-leading - 1).toNat + 1) '0' from rfl, digitsValue_zeros,
    digitsValue_toDigits]

/-- A decimal of which the point stands among its digits. -/
theorem readNumber_split (hd : d.units ≠ 0) (hpos : 0 ≤ leading)
    (hshort : leading.toNat + 1 < (Nat.toDigits 10 d.units).length) (hrest : Closes rest) :
    readNumber limits negative
        ((Nat.toDigits 10 d.units).take (leading.toNat + 1) ++
          '.' :: ((Nat.toDigits 10 d.units).drop (leading.toNat + 1) ++ rest)) =
      .ok (.double (ofDecimal negative d.units d.exponent), rest) := by
  have hwhole : Whole ((Nat.toDigits 10 d.units).take (leading.toNat + 1)) := by
    simpa using whole_take hd (Nat.succ_pos leading.toNat) 0
  have hplaces : Digits ((Nat.toDigits 10 d.units).drop (leading.toNat + 1)) :=
    fun c hc => digits_toDigits _ c (List.mem_of_mem_drop hc)
  have hne : (Nat.toDigits 10 d.units).drop (leading.toNat + 1) ≠ [] := by
    rw [Ne, List.drop_eq_nil_iff]
    omega
  have hexponent : 0 - (((Nat.toDigits 10 d.units).drop (leading.toNat + 1)).length : ℤ) =
      d.exponent := by
    rw [List.length_drop]
    omega
  rw [readNumber_places limits negative hwhole hplaces hne hrest, hexponent, List.take_append_drop,
    digitsValue_toDigits]

/-- A decimal that is a whole number, with zeros behind its digits. -/
theorem readNumber_filled (hd : d.units ≠ 0) (hpos : 0 ≤ leading)
    (hlong : (Nat.toDigits 10 d.units).length ≤ leading.toNat + 1) (hrest : Closes rest) :
    readNumber limits negative
        (Nat.toDigits 10 d.units ++
          List.replicate (leading.toNat + 1 - (Nat.toDigits 10 d.units).length) '0' ++
            '.' :: (['0'] ++ rest)) =
      .ok (.double (ofDecimal negative d.units d.exponent), rest) := by
  set zeros := leading.toNat + 1 - (Nat.toDigits 10 d.units).length with hzeros
  have hwhole : Whole (Nat.toDigits 10 d.units ++ List.replicate zeros '0') := by
    have htaken := whole_take (k := (Nat.toDigits 10 d.units).length) hd
      Nat.length_toDigits_pos zeros
    rwa [List.take_length] at htaken
  have hplaces : Digits ['0'] := digits_zeros 1
  have hexponent : (0 : ℤ) - (['0'].length : ℤ) = d.exponent - ((zeros + 1 : ℕ) : ℤ) := by
    rw [List.length_singleton]
    push_cast
    omega
  rw [readNumber_places limits negative hwhole hplaces (List.cons_ne_nil _ _) hrest, hexponent,
    List.append_assoc, show List.replicate zeros '0' ++ ['0'] = List.replicate (zeros + 1) '0' from
      List.replicate_succ'.symm, digitsValue_append_zeros, digitsValue_toDigits, ofDecimal_eq,
    decimalBits_zeros, ofDecimal_eq]

/-- A decimal with one digit in front of the point and a power of ten. -/
theorem readNumber_scientific (hd : d.units ≠ 0) (zeros : ℕ) (hrest : Closes rest) :
    readNumber limits negative
        ((Nat.toDigits 10 d.units).take 1 ++ (pointed ((Nat.toDigits 10 d.units).drop 1) ++
          (powered (decide (leading < 0))
            (List.replicate zeros '0' ++ Nat.toDigits 10 leading.natAbs) ++ rest))) =
      .ok (.double (ofDecimal negative d.units d.exponent), rest) := by
  have hplaces : Digits ((Nat.toDigits 10 d.units).drop 1) :=
    fun c hc => digits_toDigits _ c (List.mem_of_mem_drop hc)
  have hwhole : Whole ((Nat.toDigits 10 d.units).take 1) := by
    simpa using whole_take hd Nat.one_pos 0
  have hpower := (digits_zeros zeros).append (digits_toDigits leading.natAbs)
  have hne := List.append_ne_nil_of_right_ne_nil (List.replicate zeros '0')
    (whole_toDigits leading.natAbs).ne_nil
  have hexponent : (if decide (leading < 0) = true then -(leading.natAbs : ℤ) else leading.natAbs) -
      (((Nat.toDigits 10 d.units).drop 1).length : ℤ) = d.exponent := by
    have hlength : 0 < (Nat.toDigits 10 d.units).length := Nat.length_toDigits_pos
    rw [List.length_drop]
    by_cases hneg : leading < 0
    · rw [if_pos (decide_eq_true hneg)]
      omega
    · rw [if_neg (by simpa using hneg)]
      omega
  rw [readNumber_power limits negative _ hwhole hplaces hpower hne hrest, digitsValue_zeros,
    digitsValue_toDigits, hexponent, List.take_append_drop, digitsValue_toDigits]

end Forms

/-- A decimal is read as the double it stands for, in whichever form it is written. -/
theorem readNumber_render (layout : DecimalLayout) {d : Decimal} (hd : d.units ≠ 0)
    (hrest : Closes rest) :
    readNumber limits negative (d.render layout ++ rest) =
      .ok (.double (ofDecimal negative d.units d.exponent), rest) := by
  rw [ofDecimal_eq, ← bits_stripZeros 20 d, ← ofDecimal_eq]
  have hunits := units_stripZeros_ne_zero 20 hd
  rw [render]
  generalize stripZeros 20 d = d at hunits
  dsimp only
  generalize hleading : d.exponent + ((Nat.toDigits 10 d.units).length : ℤ) - 1 = leading
  split_ifs with hpositional hneg hback hneg
  · have hread := readNumber_below_one limits negative hleading hneg hrest
    simpa using hread
  · have hlong : (Nat.toDigits 10 d.units).length ≤ leading.toNat + 1 := by
      rwa [List.isEmpty_iff, List.drop_eq_nil_iff] at hback
    have hread := readNumber_filled limits negative hleading hunits
      (not_lt.mp hneg) hlong hrest
    rw [List.take_of_length_le hlong]
    simpa using hread
  · have hshort : leading.toNat + 1 < (Nat.toDigits 10 d.units).length := by
      rwa [List.isEmpty_iff, List.drop_eq_nil_iff, not_le] at hback
    have hread := readNumber_split limits negative hleading hunits
      (not_lt.mp hneg) hshort hrest
    have hfull :
        leading.toNat + 1 - ((Nat.toDigits 10 d.units).take (leading.toNat + 1)).length = 0 := by
      rw [List.length_take]
      omega
    rw [hfull]
    simpa using hread
  all_goals
    have hread := readNumber_scientific limits negative hleading hunits
      (layout.exponentDigits - (Nat.toDigits 10 leading.natAbs).length) hrest
    generalize Nat.toDigits 10 d.units = digits at hread
    rcases digits with _ | ⟨c, _ | ⟨c', more⟩⟩
    all_goals simpa [pointed, powered, hneg] using hread

end Decimal

namespace Double

section Bits

variable (x : Double)

/-- The bits of a double without its sign. -/
def lowBits : ℕ := x.bits.toNat % 2 ^ 63

/-- A double is put together of its sign and its other bits. -/
theorem make_lowBits : make x.negative x.lowBits = x := by
  have hbits : (if x.negative then Nat.pow 2 63 + x.lowBits else x.lowBits) = x.bits.toNat := by
    have hlt := x.bits.toNat_lt
    simp only [negative, lowBits, Nat.pow_eq, beq_iff_eq]
    split_ifs <;> omega
  rw [make, hbits, UInt64.ofNat_toNat]

/-- The bits of the exponent are what is left when those of the fraction are cut off. -/
theorem exponentField_eq : x.exponentField = x.lowBits / 2 ^ 52 := by
  rw [exponentField, lowBits, Nat.pow_eq, Nat.pow_eq]
  omega

/-- The bits of the fraction are the low ones. -/
theorem fraction_eq : x.fraction = x.lowBits % 2 ^ 52 := by
  rw [fraction, lowBits, Nat.pow_eq]
  omega

/-- Zero is the number without a bit but for the sign. -/
theorem isZero_iff : x.isZero = true ↔ x.lowBits = 0 := by
  rw [isZero, Bool.and_eq_true, beq_iff_eq, beq_iff_eq, exponentField_eq, fraction_eq]
  omega

/-- Infinity is the first number behind all finite ones. -/
theorem isInfinite_iff : x.isInfinite = true ↔ x.lowBits = infinityBits := by
  rw [isInfinite, Bool.and_eq_true, beq_iff_eq, beq_iff_eq, exponentField_eq, fraction_eq,
    infinityBits, Nat.pow_eq]
  omega

/-- What comes behind infinity stands for no number. -/
theorem isNaN_iff : x.isNaN = true ↔ infinityBits < x.lowBits := by
  have hlt : x.lowBits < 2 ^ 63 := Nat.mod_lt _ (by decide)
  rw [isNaN, Bool.and_eq_true, beq_iff_eq, bne_iff_ne, exponentField_eq, fraction_eq, infinityBits,
    Nat.pow_eq]
  omega

end Bits

/-- A finite double other than zero, written without its sign, is read with any sign. -/
theorem readNumber_finite (layout : DecimalLayout) {low : ℕ} (hpos : 0 < low)
    (h : low < infinityBits) (hrest : Closes rest) :
    readNumber limits negative ((Decimal.shortest (make false low)).render layout ++ rest) =
      .ok (.double (make negative low), rest) := by
  have hbits := Decimal.bits_shortest hpos h
  have hunits : (Decimal.shortest (make false low)).units ≠ 0 := by
    intro hzero
    rw [hzero, decimalBits, if_pos rfl] at hbits
    omega
  rw [Decimal.readNumber_render limits negative layout hunits hrest, ofDecimal_eq, hbits]

/-- Zero is read with any sign. -/
theorem readNumber_zero (hrest : Closes rest) :
    readNumber limits negative (['0', '.', '0'] ++ rest) =
      .ok (.double (make negative 0), rest) := by
  have hwhole : Whole ['0'] := whole_toDigits 0
  have hplaces : Digits ['0'] := digits_zeros 1
  exact readNumber_places limits negative hwhole hplaces (List.cons_ne_nil _ _) hrest

/-- How a double is written without its sign. -/
def body (layout : DecimalLayout) (x : Double) : List Char :=
  if x.isInfinite then layout.infinity.toList
  else if x.isZero then ['0', '.', '0']
  else (Decimal.shortest (make false x.lowBits)).render layout

/-- A double is written with its sign. -/
theorem toList_render {layout : DecimalLayout} {x : Double} (h : x.isNaN = false) :
    (x.render layout).toList = if x.negative then '-' :: x.body layout else x.body layout := by
  rw [render, if_neg (by rw [h]; exact Bool.false_ne_true), String.toList_ofList]
  rfl

/-- A finite double is read as itself behind its sign. -/
theorem readNumber_body (layout : DecimalLayout) {x : Double} (hnan : x.isNaN = false)
    (hfinite : x.isInfinite = false) (hrest : Closes rest) :
    readNumber limits x.negative (x.body layout ++ rest) = .ok (.double x, rest) := by
  have hlt : x.lowBits < infinityBits := by
    have hle := mt x.isNaN_iff.mpr (by rw [hnan]; exact Bool.false_ne_true)
    have hne := mt x.isInfinite_iff.mpr (by rw [hfinite]; exact Bool.false_ne_true)
    omega
  rw [body, hfinite, if_neg Bool.false_ne_true]
  split_ifs with hzero
  · rw [readNumber_zero limits _ hrest, ← x.isZero_iff.mp hzero, make_lowBits]
  · have hpos : 0 < x.lowBits := Nat.pos_of_ne_zero (mt x.isZero_iff.mpr hzero)
    rw [readNumber_finite limits _ layout hpos hlt hrest, make_lowBits]

end Double

end MarkupRouting
