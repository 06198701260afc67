import MarkupRouting.Json.Reader
import MarkupRouting.Json.Writer
import Mathlib.Data.List.Basic

/-!
# JSON strings read back

A text written as a JSON string is read as itself, whatever characters are in it: those beyond the
first plane are written as two UTF-16 units, which the reader joins again.

* **hexDigits_succ** — a number in hexadecimal digit by digit; **unit?_hexDigits** reads four
  digits.
* **readText_escapeChar** — one character, in whichever of its forms it was written.
* **readText_escaped** — a whole text up to its closing quote.
-/

namespace MarkupRouting

/-! ### Hexadecimal digits -/

/-- The last digit of a number filled up with zeros stands behind those of its sixteenth part. -/
theorem Text.hexDigits_succ {width : Nat} (h : 0 < width) (n : Nat) :
    hexDigits (width + 1) n = hexDigits width (n / 16) ++ [Nat.digitChar (n % 16)] := by
  obtain ⟨width, rfl⟩ : ∃ w, width = w + 1 := ⟨width - 1, by omega⟩
  rw [hexDigits, hexDigits, Nat.toDigits_eq_if (by decide)]
  split
  · next hn =>
    rw [Nat.div_eq_of_lt hn, Nat.mod_eq_of_lt hn, Nat.toDigits_zero]
    simp [List.replicate_succ']
  · simp

namespace Json

/-- A digit to base sixteen stands for itself. -/
theorem hexValue?_digitChar {d : Nat} (h : d < 16) : Text.hexValue? (Nat.digitChar d) = some d := by
  revert h d
  decide

/-- Four hexadecimal digits are read as the unit they were written for. -/
theorem unit?_hexDigits {n : Nat} (h : n < 0x10000) :
    ∃ a b c d, Text.hexDigits 4 n = [a, b, c, d] ∧ unit? a b c d = some n := by
  have hone : ∀ m, m < 16 → Text.hexDigits 1 m = [Nat.digitChar m] := by
    intro m hm
    rw [Text.hexDigits, Nat.toDigits_of_lt_base hm]
    rfl
  refine ⟨Nat.digitChar (n / 16 / 16 / 16), Nat.digitChar (n / 16 / 16 % 16),
    Nat.digitChar (n / 16 % 16), Nat.digitChar (n % 16), ?_, ?_⟩
  · rw [Text.hexDigits_succ (by decide), Text.hexDigits_succ (by decide),
      Text.hexDigits_succ (by decide), hone _ (by omega)]
    rfl
  · rw [unit?, hexValue?_digitChar (by omega), hexValue?_digitChar (by omega),
      hexValue?_digitChar (by omega), hexValue?_digitChar (by omega)]
    simp only [Option.bind_eq_bind, Option.bind_some, Option.pure_def, Option.some.injEq]
    omega

/-! ### One character -/

variable {read rest : List Char}

/-- An escaped unit is read as that unit. -/
theorem readText_unitEscape {unit : Nat} (h : unit < 0x10000) (first : Option Nat) :
    readText read first (unitEscape unit ++ rest) =
      readText (addUnit read first unit).1 (addUnit read first unit).2 rest := by
  obtain ⟨a, b, c, d, hdigits, hunit⟩ := unit?_hexDigits h
  rw [unitEscape, hdigits]
  simp only [List.cons_append, List.nil_append]
  rw [readText, hunit]

/-- A unit that is no half of a pair stands for its character. -/
theorem readText_unit {c : Char} (h : c.toNat ≤ 0xFFFF) :
    readText read none (unitEscape c.toNat ++ rest) = readText (c :: read) none rest := by
  have hvalid := c.valid
  have hhigh : ¬ (0xD800 ≤ c.toNat ∧ c.toNat ≤ 0xDBFF) := by
    rw [UInt32.isValidChar, Nat.isValidChar] at hvalid
    change ¬ (0xD800 ≤ c.val.toNat ∧ c.val.toNat ≤ 0xDBFF)
    omega
  have hlow : ¬ (0xDC00 ≤ c.toNat ∧ c.toNat ≤ 0xDFFF) := by
    rw [UInt32.isValidChar, Nat.isValidChar] at hvalid
    change ¬ (0xDC00 ≤ c.val.toNat ∧ c.val.toNat ≤ 0xDFFF)
    omega
  rw [readText_unitEscape (by omega), addUnit]
  simp only [Bool.and_eq_true, decide_eq_true_eq, if_neg hhigh, if_neg hlow, Char.ofNat_toNat]

/-- The two halves of a pair are joined. -/
theorem readText_pair {c : Char} (h : 0xFFFF < c.toNat) :
    readText read none (unitEscape (0xD800 + (c.toNat - 0x10000) / 0x400) ++
        (unitEscape (0xDC00 + (c.toNat - 0x10000) % 0x400) ++ rest)) =
      readText (c :: read) none rest := by
  have hvalid : c.toNat < 0x110000 := by
    have hvalid := c.valid
    rw [UInt32.isValidChar, Nat.isValidChar] at hvalid
    change c.val.toNat < 0x110000
    omega
  have hjoin : 0x10000 + (0xD800 + (c.toNat - 0x10000) / 0x400 - 0xD800) * 0x400 +
      (0xDC00 + (c.toNat - 0x10000) % 0x400 - 0xDC00) = c.toNat := by omega
  have hhigh : 0xD800 ≤ 0xD800 + (c.toNat - 0x10000) / 0x400 ∧
      0xD800 + (c.toNat - 0x10000) / 0x400 ≤ 0xDBFF := by omega
  have hlow : 0xDC00 ≤ 0xDC00 + (c.toNat - 0x10000) % 0x400 ∧
      0xDC00 + (c.toNat - 0x10000) % 0x400 ≤ 0xDFFF := by omega
  rw [readText_unitEscape (by omega), addUnit]
  simp only [Bool.and_eq_true, decide_eq_true_eq, if_pos hhigh]
  rw [readText_unitEscape (by omega), addUnit]
  simp only [Bool.and_eq_true, decide_eq_true_eq, if_pos hlow, hjoin, Char.ofNat_toNat]

/-- An escape of one character is read as what it stands for. -/
theorem readText_short {e c : Char} (he : e ≠ 'u') (hc : escaped? e = some c) :
    readText read none ('\\' :: e :: rest) = readText (c :: read) none rest := by
  rw [readText, hc]
  · rfl
  · intro _ _ _ _ _ heq
    exact absurd heq he

/-- A character that needs no escape is read as itself. -/
theorem readText_plain {c : Char} (hlow : 0x20 ≤ c.toNat) (hquote : c.toNat ≠ 0x22)
    (hback : c ≠ '\\') : readText read none (c :: rest) = readText (c :: read) none rest := by
  have hnumber : (c.toNat == 0x22) = false := beq_eq_false_iff_ne.mpr hquote
  have hself : (c == '\\') = false := beq_eq_false_iff_ne.mpr hback
  rw [readText]
  · simp [hnumber, hself, Nat.not_lt.mpr hlow, settleUnit]
  · intro _ _ _ _ _ heq
    exact absurd heq hback
  · intro _ _ heq
    exact absurd heq hback

/-- A character is read as itself, however it was written. -/
theorem readText_escapeChar (c : Char) :
    readText read none (escapeChar c ++ rest) = readText (c :: read) none rest := by
  have hchar : ∀ {d : Char}, c.toNat = d.toNat → c = d := fun h => Char.toNat_inj.mp h
  rw [escapeChar]
  simp only [Bool.or_eq_true, beq_iff_eq, Bool.and_eq_true, decide_eq_true_eq]
  split_ifs with hself hfeed hreturn htab hback hform hplain hunit
  · obtain rfl | rfl : c = '"' ∨ c = '\\' := hself.imp (hchar (d := '"')) (hchar (d := '\\'))
    · exact readText_short (by decide) (by decide)
    · exact readText_short (by decide) (by decide)
  · obtain rfl := hchar (d := '\n') hfeed
    exact readText_short (by decide) (by decide)
  · obtain rfl := hchar (d := '\r') hreturn
    exact readText_short (by decide) (by decide)
  · obtain rfl := hchar (d := '\t') htab
    exact readText_short (by decide) (by decide)
  · obtain rfl := hchar (d := Char.ofNat 8) hback
    exact readText_short (by decide) (by decide)
  · obtain rfl := hchar (d := Char.ofNat 12) hform
    exact readText_short (by decide) (by decide)
  · refine readText_plain hplain.1 (fun h => hself (.inl h)) (fun h => hself (.inr ?_))
    rw [h]
    rfl
  · exact readText_unit hunit
  · rw [List.append_assoc]
    exact readText_pair (Nat.not_le.mp hunit)

/-! ### Whole texts -/

/-- Escaped characters and a quote behind them are read as the characters. -/
theorem readText_escaped (cs rest : List Char) :
    readText read none (cs.flatMap escapeChar ++ Char.ofNat 0x22 :: rest) =
      some (String.ofList (read.reverse ++ cs), rest) := by
  induction cs generalizing read with
  | nil =>
    rw [List.flatMap_nil, List.nil_append, readText]
    · simp [settleUnit]
    · intro _ _ _ _ _ heq
      exact absurd heq (by decide)
    · intro _ _ heq
      exact absurd heq (by decide)
  | cons c cs ih =>
    rw [List.flatMap_cons, List.append_assoc, readText_escapeChar, ih]
    simp

/-- A text is written as a quote, its characters and a quote. -/
theorem toList_writeText (s : String) :
    (writeText s).toList =
      Char.ofNat 0x22 :: (s.toList.flatMap escapeChar ++ [Char.ofNat 0x22]) := by
  rw [writeText, String.toList_ofList, List.cons_append]

/-- What stands behind the opening quote of a written text is read as the text. -/
theorem readText_written (s : String) (rest : List Char) :
    readText [] none (s.toList.flatMap escapeChar ++ Char.ofNat 0x22 :: rest) =
      some (s, rest) := by
  rw [readText_escaped, List.reverse_nil, List.nil_append, String.ofList_toList]

end Json

end MarkupRouting
