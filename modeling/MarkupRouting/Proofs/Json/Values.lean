import MarkupRouting.Proofs.Json.Doubles
import MarkupRouting.Proofs.Json.Texts
import MarkupRouting.Proofs.Tables

/-!
# JSON values one by one

How each kind of value begins where it is written, and how single values are read: words, numbers
behind their sign, and texts.

* **readWord_word**, **readWord_eq_none** — which texts begin with a word.
* **readValue_word**, **readValue_signed**, **readValue_text** — a value is read by its first
  character.
* **Value.IsJson** — the values that can be said in JSON; **beyond?** — what of them is beyond
  limits.
* **Layout.Blank** — the layouts that set things apart by gaps only.
* **begins_writeAt** — no value begins with a gap or with a closing bracket.
* **readValue_int**, **readValue_double** — numbers as they are written.
-/

namespace MarkupRouting

namespace Json

/-! ### Words -/

/-- A word is read off the text it begins. -/
theorem afterWord?_append (word : String) (rest : List Char) :
    afterWord? word (word.toList ++ rest) = some rest := by
  have hprefix : word.toList.isPrefixOf (word.toList ++ rest) = true :=
    List.isPrefixOf_iff_prefix.mpr (List.prefix_append _ _)
  rw [afterWord?, if_pos hprefix, ← String.length_toList, List.drop_left]

/-- A word is not read off a text that begins with another character. -/
theorem afterWord?_eq_none {word : String} {cs : List Char} (hword : word.toList ≠ [])
    (h : word.toList.head? ≠ cs.head?) : afterWord? word cs = none := by
  have hprefix : ¬ word.toList.isPrefixOf cs = true := by
    intro hprefix
    obtain ⟨rest, rfl⟩ := List.isPrefixOf_iff_prefix.mp hprefix
    exact h (List.head?_append_of_ne_nil _ hword).symm
  rw [afterWord?, if_neg hprefix]

/-- No word begins as another one does, and none is empty. -/
theorem words_distinct :
    words.Pairwise (fun a b => a.1.toList.head? ≠ b.1.toList.head?) ∧
      ∀ a ∈ words, a.1.toList ≠ [] := by
  simp only [words]
  decide

/-- A word is read as the value it stands for. -/
theorem readWord_word {word : String} {v : Value} (h : (word, v) ∈ words) (rest : List Char) :
    readWord (word.toList ++ rest) = some (v, rest) := by
  obtain ⟨hdistinct, hne⟩ := words_distinct
  rw [readWord]
  generalize words = ws at h hdistinct hne
  induction ws with
  | nil => exact absurd h List.not_mem_nil
  | cons first ws ih =>
    obtain ⟨w, v'⟩ := first
    rw [List.findSome?_cons]
    dsimp only
    rcases List.mem_cons.mp h with heq | hmem
    · obtain ⟨rfl, rfl⟩ := Prod.mk.inj heq
      rw [afterWord?_append]
      rfl
    · have hlead : (word.toList ++ rest).head? = word.toList.head? :=
        List.head?_append_of_ne_nil _ (hne _ h)
      have hhead : w.toList.head? ≠ (word.toList ++ rest).head? :=
        hlead ▸ (List.pairwise_cons.mp hdistinct).1 _ hmem
      rw [afterWord?_eq_none (hne _ List.mem_cons_self) hhead]
      exact ih hmem (List.pairwise_cons.mp hdistinct).2 fun a ha =>
        hne a (List.mem_cons_of_mem _ ha)

/-- A text that begins as no word does begins with none. -/
theorem readWord_eq_none {cs : List Char}
    (h : ∀ c ∈ cs.head?, c ∉ ['n', 't', 'f', 'N', 'I', '-']) : readWord cs = none := by
  have hheads : ∀ w ∈ words, ∃ c ∈ ['n', 't', 'f', 'N', 'I', '-'], w.1.toList.head? = some c := by
    intro w hw
    simp only [words, List.mem_cons, List.not_mem_nil, or_false] at hw
    rcases hw with rfl | rfl | rfl | rfl | rfl | rfl
    · exact ⟨'n', by decide, rfl⟩
    · exact ⟨'t', by decide, rfl⟩
    · exact ⟨'f', by decide, rfl⟩
    · exact ⟨'N', by decide, rfl⟩
    · exact ⟨'I', by decide, rfl⟩
    · exact ⟨'-', by decide, rfl⟩
  rw [readWord, List.findSome?_eq_none_iff]
  intro w hw
  obtain ⟨c, hc, hhead⟩ := hheads w hw
  have hne : w.1.toList.head? ≠ cs.head? := fun heq => h c (heq ▸ hhead) hc
  dsimp only
  rw [afterWord?_eq_none (words_distinct.2 w hw) hne]
  rfl

/-- A sign with a digit behind it is no word. -/
theorem readWord_minus {c : Char} {cs : List Char} (h : c.isDigit = true) :
    readWord ('-' :: c :: cs) = none := by
  have hsecond : ∀ w ∈ words,
      w.1.toList.head? ≠ some '-' ∨ ∃ more, w.1.toList = '-' :: 'I' :: more := by
    simp only [words, List.mem_cons, List.not_mem_nil, or_false]
    rintro w (rfl | rfl | rfl | rfl | rfl | rfl)
    iterate 5 exact .inl (by decide)
    exact .inr ⟨_, rfl⟩
  rw [readWord, List.findSome?_eq_none_iff]
  intro w hw
  dsimp only
  rcases hsecond w hw with hfirst | ⟨more, hinfinity⟩
  · have hhead : w.1.toList.head? ≠ ('-' :: c :: cs).head? := hfirst
    rw [afterWord?_eq_none (words_distinct.2 w hw) hhead]
    rfl
  · have hprefix : ¬ w.1.toList.isPrefixOf ('-' :: c :: cs) = true := by
      rw [hinfinity, List.isPrefixOf_iff_prefix, List.cons_prefix_cons, List.cons_prefix_cons]
      rintro ⟨-, rfl, -⟩
      exact absurd h (by decide)
    rw [afterWord?, if_neg hprefix]
    rfl

/-! ### The forms of values -/

section Forms

variable (fuel : ℕ) (limits : Limits) {c : Char} (cs : List Char)

/-- A number begins with a digit. -/
theorem exists_digit_of_readNumber {limits : Limits} {negative : Bool} {cs : List Char}
    {found : Value × List Char} (h : readNumber limits negative cs = .ok found) :
    ∃ c rest, cs = c :: rest ∧ c.isDigit = true := by
  cases cs with
  | nil => cases h
  | cons c rest =>
    refine ⟨c, rest, rfl, ?_⟩
    by_contra hdigit
    have hwhole : (spanWhole (c :: rest)).1 = [] := by
      rw [spanWhole, spanDigits, List.span_eq_takeWhile_dropWhile]
      · exact List.takeWhile_cons_of_neg hdigit
      · rintro _ heq
        exact absurd ((List.cons.inj heq).1 ▸ rfl) hdigit
    simp [readNumber, hwhole] at h

/-- A digit begins a number. -/
theorem readValue_digit (h : c.isDigit = true) :
    readValue (fuel + 1) limits (c :: cs) = readNumber limits false (c :: cs) := by
  have hne : ∀ d : Char, d.isDigit = false → c ≠ d := by
    rintro d hd rfl
    rw [h] at hd
    cases hd
  have hword : readWord (c :: cs) = none := by
    refine readWord_eq_none ?_
    rintro _ ⟨⟩ hmem
    simp only [List.mem_cons, List.not_mem_nil, or_false] at hmem
    rcases hmem with rfl | rfl | rfl | rfl | rfl | rfl <;> exact hne _ (by decide) rfl
  have hquote : (c.toNat == 0x22) = false := by
    rw [beq_eq_false_iff_ne]
    exact fun heq => hne '"' (by decide) (Char.toNat_inj.mp heq)
  rw [readValue, hword]
  · dsimp only
    rw [hquote]
    rfl
  · exact hne '[' (by decide)
  · exact hne '{' (by decide)
  · exact hne '-' (by decide)

/-- A minus in front of a digit begins a number below zero. -/
theorem readValue_minus (h : c.isDigit = true) :
    readValue (fuel + 1) limits ('-' :: c :: cs) = readNumber limits true (c :: cs) := by
  rw [readValue, readWord_minus h]

/-- Each of the words is read as the value it stands for. -/
theorem readValue_word {word : String} {v : Value} (h : (word, v) ∈ words) (rest : List Char) :
    readValue (fuel + 1) limits (word.toList ++ rest) = .ok (v, rest) := by
  unfold readValue
  rw [readWord_word h]

/-- A number is read behind its sign. -/
theorem readValue_signed (h : c.isDigit = true) (negative : Bool) :
    readValue (fuel + 1) limits (if negative then '-' :: c :: cs else c :: cs) =
      readNumber limits negative (c :: cs) := by
  cases negative
  · exact readValue_digit fuel limits cs h
  · exact readValue_minus fuel limits cs h

/-- A text that was written in quotes is read as it was, whatever comes behind it. -/
theorem readValue_text (s : String) (rest : List Char) :
    readValue (fuel + 1) limits ((writeText s).toList ++ rest) = .ok (.text s, rest) := by
  have hword : readWord ((writeText s).toList ++ rest) = none := by
    refine readWord_eq_none ?_
    rw [toList_writeText]
    rintro _ ⟨⟩
    decide
  have hread := readText_written s rest
  rw [toList_writeText] at hword ⊢
  unfold readValue
  rw [hword]
  simp [hread]

end Forms

/-! ### Values that can be said in JSON -/

end Json

/-- The value can be said in JSON: there is no text mode in it, no double that stands for no number,
and no record with two fields of one name. -/
inductive Value.IsJson : Value → Prop
  /-- No value. -/
  | null : IsJson .null
  /-- A truth value. -/
  | bool (b : Bool) : IsJson (.bool b)
  /-- An integer. -/
  | int (n : ℤ) : IsJson (.int n)
  /-- A double that stands for a number. -/
  | double {x : Double} (hnumber : x.isNaN = false) : IsJson (.double x)
  /-- A text. -/
  | text (s : String) : IsJson (.text s)
  /-- A list of such values. -/
  | list {items : List Value} (hitems : ∀ v ∈ items, IsJson v) : IsJson (.list items)
  /-- A record of such values under names of their own. -/
  | record {fields : Table Value} (hnames : fields.keys.Nodup)
      (hfields : ∀ e ∈ fields, IsJson e.2) : IsJson (.record fields)

namespace Json

/-- What is read of something with a value: this, unless there is a flaw in it. -/
def read? {α : Type} (flaw : Option Flaw) (found : α) : Except Flaw α :=
  match flaw with
  | some flaw => .error flaw
  | none => .ok found

/-- The layout sets the parts of a text apart by gaps only. An indentation may be any text; only one
of blanks leaves a text that can be read again. -/
def Layout.Blank : Layout → Prop
  | .line => True
  | .block margin => ∀ c ∈ margin.toList, isGap c = true

/-- The characters are a gap. -/
def Gap (cs : List Char) : Prop := ∀ c ∈ cs, isGap c = true

/-- The text goes on with something that is neither a gap nor a closing bracket. -/
def Begins (cs : List Char) : Prop :=
  ∃ c rest, cs = c :: rest ∧ isGap c = false ∧ c ≠ ']' ∧ c ≠ '\x7d'

/-- Nothing is a gap. -/
theorem gap_nil : Gap [] := fun _ hc => absurd hc List.not_mem_nil

/-- Where no gap begins nothing is skipped. -/
theorem skipGap_cons {c : Char} (hc : isGap c = false) (rest : List Char) :
    skipGap (c :: rest) = c :: rest :=
  List.dropWhile_cons_of_neg (by rw [hc]; exact Bool.false_ne_true)

/-- A gap is skipped as a whole. -/
theorem skipGap_append {gap : List Char} (hgap : Gap gap) {c : Char} (hc : isGap c = false)
    (rest : List Char) : skipGap (gap ++ c :: rest) = c :: rest := by
  rw [skipGap, List.dropWhile_append_of_pos hgap]
  exact skipGap_cons hc rest

/-- In a layout whose indentation is blank, a new line and its indentation are a gap. -/
theorem Layout.gap_newline {layout : Layout} (h : layout.Blank) (level : ℕ) :
    Gap (layout.newline level).toList := by
  cases layout with
  | line =>
    intro c hc
    cases hc
  | block margin =>
    intro c hc
    simp only [Layout.newline, String.toList_append, String.toList_join, List.mem_append,
      List.mem_flatMap, List.mem_replicate] at hc
    rcases hc with hc | ⟨_, ⟨-, rfl⟩, hc⟩
    · obtain rfl : c = '\n' := by simpa using hc
      rfl
    · exact h c hc

/-- What stands between two items is a comma and a gap. -/
theorem Layout.separator {layout : Layout} (h : layout.Blank) (level : ℕ) :
    ∃ gap, Gap gap ∧ (layout.comma ++ layout.newline level).toList = ',' :: gap := by
  cases layout with
  | line =>
    refine ⟨[' '], fun c hc => ?_, by simp [Layout.comma, Layout.newline]⟩
    rw [List.mem_singleton.mp hc]
    rfl
  | block margin =>
    refine ⟨_, Layout.gap_newline h level, ?_⟩
    simp [Layout.comma]

/-- A comma or a closing bracket can follow a value. -/
theorem closes_cons {c : Char} (hc : c = ',' ∨ c = ']' ∨ c = '\x7d') (rest : List Char) :
    Closes (c :: rest) := by
  rintro _ ⟨⟩
  exact .inr hc

/-- So it can with a gap in front of it. -/
theorem Gap.closes {gap : List Char} (hgap : Gap gap) {c : Char}
    (hc : c = ',' ∨ c = ']' ∨ c = '\x7d') (rest : List Char) : Closes (gap ++ c :: rest) := by
  cases gap with
  | nil => exact closes_cons hc rest
  | cons d gap =>
    rintro _ ⟨⟩
    exact .inl (hgap d List.mem_cons_self)

/-- An integer is written as its digits behind its sign. -/
theorem toList_toString (n : ℤ) :
    (toString n).toList =
      if n < 0 then '-' :: Nat.toDigits 10 n.natAbs else Nat.toDigits 10 n.natAbs := by
  change n.repr.toList = _
  rw [Int.repr_eq_if]
  by_cases h : 0 ≤ n
  · rw [if_pos h, if_neg (not_lt.mpr h), Nat.repr_eq_ofList_toDigits, String.toList_ofList,
      show n.toNat = n.natAbs by omega]
  · rw [if_neg h, if_pos (not_le.mp h), String.toList_append, Nat.repr_eq_ofList_toDigits,
      String.toList_ofList, show (-n).toNat = n.natAbs by omega]
    simp

/-- The digits of a number begin with a digit. -/
theorem exists_digit_toDigits (n : ℕ) :
    ∃ c rest, Nat.toDigits 10 n = c :: rest ∧ c.isDigit = true := by
  obtain ⟨c, rest, heq⟩ := List.exists_cons_of_ne_nil (whole_toDigits n).ne_nil
  exact ⟨c, rest, heq, digits_toDigits n c (heq ▸ List.mem_cons_self)⟩

/-- What stands in brackets begins with the first of them. -/
theorem bracketed_begins (layout : Layout) (level : ℕ) (first last : String) (items : List String) :
    ∃ rest, (bracketed layout level first last items).toList = first.toList ++ rest := by
  rw [bracketed]
  split_ifs
  · exact ⟨_, String.toList_append⟩
  · simp

/-! ### How values begin -/

/-- A digit begins neither a gap nor the end of a list or a record. -/
theorem begins_of_digit {c : Char} (h : c.isDigit = true) :
    isGap c = false ∧ c ≠ ']' ∧ c ≠ '\x7d' := by
  have hne : ∀ d : Char, d.isDigit = false → c ≠ d := by
    rintro d hd rfl
    rw [h] at hd
    cases hd
  refine ⟨?_, hne ']' (by decide), hne '\x7d' (by decide)⟩
  simp only [isGap, Bool.or_eq_false_iff, beq_eq_false_iff_ne]
  exact ⟨⟨⟨hne _ (by decide), hne _ (by decide)⟩, hne _ (by decide)⟩, hne _ (by decide)⟩

/-- A finite double begins with a digit behind its sign. -/
theorem exists_digit_body {x : Double} (hnumber : x.isNaN = false)
    (hfinite : x.isInfinite = false) :
    ∃ c rest, x.body doubleLayout = c :: rest ∧ c.isDigit = true := by
  have hread := Double.readNumber_body ⟨0, 0⟩ doubleLayout hnumber hfinite
    (nofun : Closes [])
  rw [List.append_nil] at hread
  exact exists_digit_of_readNumber hread

/-- A number that is written begins a value. -/
theorem begins_body {x : Double} (hnumber : x.isNaN = false) : Begins (x.body doubleLayout) := by
  cases hfinite : x.isInfinite
  · obtain ⟨c, rest, heq, hdigit⟩ := exists_digit_body hnumber hfinite
    exact ⟨c, rest, heq, begins_of_digit hdigit⟩
  · rw [Double.body, hfinite]
    exact ⟨'I', ['n', 'f', 'i', 'n', 'i', 't', 'y'], by simp [doubleLayout], by decide⟩

/-- A value begins neither with a gap nor with a closing bracket. -/
theorem begins_writeAt (layout : Layout) (level : ℕ) {v : Value} (hv : v.IsJson) :
    Begins (writeAt layout level v).toList := by
  cases hv with
  | null => exact ⟨'n', ['u', 'l', 'l'], by simp [writeAt], by decide⟩
  | bool b =>
    cases b
    · exact ⟨'f', ['a', 'l', 's', 'e'], by simp [writeAt], by decide⟩
    · exact ⟨'t', ['r', 'u', 'e'], by simp [writeAt], by decide⟩
  | int n =>
    obtain ⟨c, rest, heq, hdigit⟩ := exists_digit_toDigits n.natAbs
    rw [writeAt, toList_toString, heq]
    split_ifs
    · exact ⟨'-', _, rfl, by decide⟩
    · exact ⟨c, rest, rfl, begins_of_digit hdigit⟩
  | @double x hnumber =>
    rw [writeAt, Double.toList_render hnumber]
    split_ifs
    · exact ⟨'-', _, rfl, by decide⟩
    · exact begins_body hnumber
  | text s =>
    rw [writeAt, toList_writeText]
    exact ⟨_, _, rfl, by decide⟩
  | @list items _ =>
    obtain ⟨rest, heq⟩ :=
      bracketed_begins layout level "[" "]" (writeItems layout (level + 1) items)
    exact ⟨'[', rest, by rw [writeAt, heq]; simp, by decide⟩
  | @record fields _ _ =>
    obtain ⟨rest, heq⟩ :=
      bracketed_begins layout level "\x7b" "\x7d" (writeFields layout (level + 1) fields)
    exact ⟨'\x7b', rest, by rw [writeAt, heq]; simp, by decide⟩

/-- What is written for a value is not empty, so that fuel for its length suffices for one more
call. -/
theorem length_writeAt_pos (layout : Layout) (level : ℕ) {v : Value} (hv : v.IsJson) :
    0 < (writeAt layout level v).length := by
  obtain ⟨c, cs, hcs, -⟩ := begins_writeAt layout level hv
  rw [← String.length_toList, hcs]
  exact Nat.succ_pos _

/-! ### Single values -/

section Single

variable {fuel : ℕ} {limits : Limits} {rest : List Char}

/-- An integer that was written is read as it was, unless it is out of bounds. -/
theorem readValue_int (n : ℤ) (hrest : Closes rest) :
    readValue (fuel + 1) limits ((toString n).toList ++ rest) =
      read? (beyond? limits (.int n)) (.int n, rest) := by
  obtain ⟨c, cs, heq, hdigit⟩ := exists_digit_toDigits n.natAbs
  have hsigned := readValue_signed fuel limits (cs ++ rest) hdigit (decide (n < 0))
  have hread := readNumber_whole limits (decide (n < 0)) (whole_toDigits n.natAbs) hrest
  rw [digitsValue_toDigits, heq, List.cons_append] at hread
  have hvalue : (if decide (n < 0) = true then -(n.natAbs : ℤ) else n.natAbs) = n := by
    by_cases h : n < 0
    · rw [if_pos (decide_eq_true h)]
      omega
    · rw [if_neg (by simpa using h)]
      omega
  have htext : (toString n).toList ++ rest =
      if decide (n < 0) = true then '-' :: c :: (cs ++ rest) else c :: (cs ++ rest) := by
    rw [toList_toString, heq]
    by_cases h : n < 0 <;> simp [h]
  rw [htext, hsigned, hread, hvalue, beyond?, heq]
  split_ifs <;> rfl

/-- There are two infinities, told apart by their signs. -/
theorem eq_infinity {x : Double} (h : x.isInfinite = true) : Double.infinity x.negative = x := by
  rw [Double.infinity, ← x.isInfinite_iff.mp h, Double.make_lowBits]

/-- A double that was written is read as the same double: its shortest digits are as good as all of
them. -/
theorem readValue_double {x : Double} (hnumber : x.isNaN = false) (hrest : Closes rest) :
    readValue (fuel + 1) limits ((x.render doubleLayout).toList ++ rest) =
      .ok (.double x, rest) := by
  rw [Double.toList_render hnumber]
  cases hfinite : x.isInfinite
  · obtain ⟨c, cs, heq, hdigit⟩ := exists_digit_body hnumber hfinite
    have hread := Double.readNumber_body limits doubleLayout hnumber hfinite hrest
    rw [heq, List.cons_append] at hread
    rw [heq, ← hread, ← readValue_signed fuel limits (cs ++ rest) hdigit]
    split_ifs <;> rfl
  · rw [Double.body, hfinite, if_pos rfl]
    cases hsign : x.negative
    · have hword : ("Infinity", Value.double x) ∈ words := by
        rw [← eq_infinity hfinite, hsign]
        simp [words]
      exact readValue_word fuel limits hword rest
    · have hword : ("-Infinity", Value.double x) ∈ words := by
        rw [← eq_infinity hfinite, hsign]
        simp [words]
      have hread := readValue_word fuel limits hword rest
      simpa [doubleLayout] using hread

end Single

end Json

end MarkupRouting
