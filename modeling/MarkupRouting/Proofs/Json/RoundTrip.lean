import MarkupRouting.Proofs.Json.Values

/-!
# JSON texts are read back

What is written of a value is read as this value, in any layout that sets things apart by gaps. The
text of a list or a record is read by following the items: each is read back from where it stands,
whatever closes it, so that the induction is on what can be said in JSON.

* **row** — texts set apart by commas; **writeAt_list** and **writeAt_record** write lists and
  records as rows between brackets.
* **ReadBack** — a value is read back from where it is written.
* **readItems_write**, **readFields_write** — the items of a list and the fields of a record.
* **readWithin_write** — a text is read as what it was written for, unless there is something beyond
  the limits in it.
* **read_write** — without limits it always is.
-/

namespace MarkupRouting.Json

/-! ### Rows of texts -/

section Rows

variable {layout : Layout} {level : ℕ}

/-- Texts in a row, with a comma and a break between any two of them. -/
def row (layout : Layout) (level : ℕ) (texts : List String) : String :=
  String.intercalate (layout.comma ++ layout.newline level) texts

/-- One text is a row without commas. -/
theorem row_singleton (text : String) : row layout level [text] = text :=
  String.intercalate_singleton

/-- A row of several texts: a comma and a new line behind the first one. -/
theorem row_cons (text : String) {texts : List String} (h : texts ≠ []) :
    row layout level (text :: texts) =
      text ++ (layout.comma ++ layout.newline level) ++ row layout level texts :=
  String.intercalate_cons_of_ne_nil h

/-- Behind a text that is not the last one there are a comma and a gap. -/
theorem exists_gap_row (hblank : layout.Blank) (level : ℕ) (text : String) {texts : List String}
    (h : texts ≠ []) :
    ∃ more, Gap more ∧ (row layout level (text :: texts)).toList =
      text.toList ++ ',' :: (more ++ (row layout level texts).toList) := by
  obtain ⟨more, hmore, hseparator⟩ := layout.separator hblank level
  refine ⟨more, hmore, ?_⟩
  rw [row_cons text h, String.toList_append, String.toList_append, hseparator]
  simp

/-- A row begins as its first text does. -/
theorem begins_row (layout : Layout) (level : ℕ) {text : String} (h : Begins text.toList)
    (texts : List String) : Begins (row layout level (text :: texts)).toList := by
  cases texts with
  | nil => rwa [row_singleton]
  | cons =>
    obtain ⟨c, cs, hcs, hc⟩ := h
    rw [row_cons text (List.cons_ne_nil _ _), String.toList_append, String.toList_append, hcs]
    exact ⟨c, _, rfl, hc⟩

/-- A row is at least as long as each of its texts. -/
theorem length_le_row {texts : List String} {text : String} (h : text ∈ texts) :
    text.length ≤ (row layout level texts).length := by
  induction texts with
  | nil => cases h
  | cons other texts ih =>
    by_cases hlast : texts = []
    · subst hlast
      rw [row_singleton, List.mem_singleton.mp h]
    · rw [row_cons other hlast, String.length_append, String.length_append]
      rcases List.mem_cons.mp h with rfl | hmem
      · omega
      · have := ih hmem
        omega

/-- Between brackets there is a row with a break around it. -/
theorem toList_bracketed (layout : Layout) (level : ℕ) (first last : String) {texts : List String}
    (h : texts ≠ []) :
    (bracketed layout level first last texts).toList =
      first.toList ++ ((layout.newline (level + 1)).toList ++
        ((row layout (level + 1) texts).toList ++
          ((layout.newline level).toList ++ last.toList))) := by
  rw [bracketed, if_neg (by simpa using h)]
  simp [row]

/-- What stands in brackets is not longer than the whole. -/
theorem length_row_le (layout : Layout) (level : ℕ) (first last : String) {texts : List String}
    (h : texts ≠ []) :
    first.length + (row layout (level + 1) texts).length + last.length ≤
      (bracketed layout level first last texts).length := by
  have hlength := congrArg List.length (toList_bracketed layout level first last h)
  simp only [List.length_append, String.length_toList] at hlength
  omega

/-- One field as it is written. -/
def fieldText (layout : Layout) (level : ℕ) (e : String × Value) : String :=
  writeText e.1 ++ ": " ++ writeAt layout level e.2

/-- A list is written as its items between brackets. -/
theorem writeAt_list (items : List Value) :
    writeAt layout level (.list items) =
      bracketed layout level "[" "]" (items.map (writeAt layout (level + 1))) := by
  have hitems : writeItems layout (level + 1) items = items.map (writeAt layout (level + 1)) := by
    induction items with
    | nil => rw [writeItems, List.map_nil]
    | cons v items ih => rw [writeItems, List.map_cons, ih]
  rw [writeAt, hitems]

/-- A record is written as its fields between braces. -/
theorem writeAt_record (fields : List (String × Value)) :
    writeAt layout level (.record fields) =
      bracketed layout level "\x7b" "\x7d" (fields.map (fieldText layout (level + 1))) := by
  have hfields : writeFields layout (level + 1) fields =
      fields.map (fieldText layout (level + 1)) := by
    induction fields with
    | nil => rw [writeFields, List.map_nil]
    | cons e fields ih =>
      rw [writeFields, List.map_cons, ih]
      rfl
  rw [writeAt, hfields]

/-- A field begins with the quote of its name. -/
theorem begins_fieldText (layout : Layout) (level : ℕ) (e : String × Value) :
    Begins (fieldText layout level e).toList := by
  rw [fieldText, String.toList_append, String.toList_append, toList_writeText]
  exact ⟨_, _, rfl, by decide⟩

end Rows

/-! ### Lists and records -/

/-- Whatever closes it, the value is read back where it is written, as far as it stays within the
limits; as much fuel as the text is long is enough. -/
structure ReadBack (layout : Layout) (v : Value) : Prop where
  /-- What is read of the text. -/
  read : ∀ {level fuel : ℕ} {limits : Limits} {rest : List Char},
    (writeAt layout level v).length ≤ fuel → Closes rest →
      readValue fuel limits ((writeAt layout level v).toList ++ rest) =
        read? (beyond? limits v) (v, rest)

section Brackets

variable {layout : Layout} {level fuel : ℕ} {limits : Limits} {gap gap' rest : List Char}

/-- The items of a list are read back up to its bracket. -/
theorem readItems_write (hblank : layout.Blank) {items : List Value} (hne : items ≠ [])
    (hitems : ∀ v ∈ items, v.IsJson ∧ ReadBack layout v) (hgap : Gap gap) (hgap' : Gap gap')
    {before : List Value}
    (hfuel : (row layout level (items.map (writeAt layout level))).length + 1 ≤ fuel) :
    readItems fuel limits before (gap ++
        ((row layout level (items.map (writeAt layout level))).toList ++ (gap' ++ ']' :: rest))) =
      read? (beyondItems? limits items) (before.reverse ++ items, rest) := by
  induction items generalizing gap before fuel with
  | nil => exact absurd rfl hne
  | cons v items ih =>
    obtain ⟨fuel, rfl⟩ : ∃ n, fuel = n + 1 := ⟨fuel - 1, by omega⟩
    obtain ⟨hjson, hread⟩ := hitems v List.mem_cons_self
    obtain ⟨c, cs, hcs, hc, -⟩ := begins_writeAt layout level hjson
    have hskip : ∀ tail, skipGap (gap ++ ((writeAt layout level v).toList ++ tail)) =
        (writeAt layout level v).toList ++ tail := by
      intro tail
      rw [hcs, List.cons_append, skipGap_append hgap hc]
    rw [List.map_cons] at hfuel ⊢
    by_cases hlast : items = []
    · subst hlast
      rw [List.map_nil, row_singleton] at hfuel ⊢
      rw [readItems, hskip, hread.read (by omega) (hgap'.closes (.inr (.inl rfl)) rest),
        beyondItems?, beyondItems?, Option.or_none]
      cases beyond? limits v with
      | some flaw => rfl
      | none =>
        dsimp only [read?]
        rw [skipGap_append hgap' (by decide)]
        simp
    · have hrow : items.map (writeAt layout level) ≠ [] := by simpa using hlast
      obtain ⟨more, hmore, htext⟩ := exists_gap_row hblank level (writeAt layout level v) hrow
      have hlength := congrArg List.length htext
      simp only [List.length_append, List.length_cons, String.length_toList] at hlength
      rw [htext, List.append_assoc, List.cons_append, List.append_assoc, readItems, hskip,
        hread.read (by omega) (closes_cons (.inl rfl) _), beyondItems?]
      cases beyond? limits v with
      | some flaw => rfl
      | none =>
        have hrest : readItems fuel limits (v :: before) (more ++
            ((row layout level (items.map (writeAt layout level))).toList ++
              (gap' ++ ']' :: rest))) = _ :=
          ih hlast (fun w hw => hitems w (List.mem_cons_of_mem v hw)) hmore (by omega)
        dsimp only [read?]
        rw [skipGap_cons (by decide), Option.none_or]
        simpa [read?] using hrest

/-- A field is read back as its name and its value. -/
theorem readFields_step {e : String × Value} (hjson : e.2.IsJson) (hread : ReadBack layout e.2)
    (hgap : Gap gap) {before : List (String × Value)} {tail : List Char} (htail : Closes tail)
    (hfuel : (fieldText layout level e).length ≤ fuel) :
    readFields (fuel + 1) limits before (gap ++ ((fieldText layout level e).toList ++ tail)) =
      match read? (beyond? limits e.2) tail with
      | .error flaw => .error flaw
      | .ok tail =>
        match skipGap tail with
        | '\x7d' :: rest => .ok (Table.ofPairs (e :: before).reverse, rest)
        | ',' :: rest => readFields fuel limits (e :: before) rest
        | _ => .error .malformed := by
  obtain ⟨name, v⟩ := e
  obtain ⟨c, cs, hcs, hc, -⟩ := begins_writeAt layout level hjson
  have htext : (fieldText layout level (name, v)).toList ++ tail =
      Char.ofNat 0x22 :: (name.toList.flatMap escapeChar ++ Char.ofNat 0x22 ::
        ':' :: ([' '] ++ ((writeAt layout level v).toList ++ tail))) := by
    rw [fieldText, String.toList_append, String.toList_append, toList_writeText]
    simp
  have hspace : skipGap ([' '] ++ ((writeAt layout level v).toList ++ tail)) =
      (writeAt layout level v).toList ++ tail := by
    have hblank : Gap [' '] := by
      intro d hd
      rw [List.mem_singleton.mp hd]
      rfl
    rw [hcs]
    exact skipGap_append hblank hc _
  rw [fieldText, String.length_append] at hfuel
  rw [htext, readFields, skipGap_append hgap (by decide)]
  dsimp only
  rw [if_pos (by decide), readText_written]
  dsimp only
  rw [skipGap_cons (by decide)]
  simp only [hspace]
  rw [hread.read (by omega) htail]
  cases beyond? limits v <;> rfl

/-- The fields of a record are read back up to its bracket. -/
theorem readFields_write (hblank : layout.Blank) {fields : List (String × Value)}
    (hne : fields ≠ []) (hfields : ∀ e ∈ fields, e.2.IsJson ∧ ReadBack layout e.2)
    (hgap : Gap gap) (hgap' : Gap gap') {before : List (String × Value)}
    (hfuel : (row layout level (fields.map (fieldText layout level))).length + 1 ≤ fuel) :
    readFields fuel limits before (gap ++
        ((row layout level (fields.map (fieldText layout level))).toList ++
          (gap' ++ '\x7d' :: rest))) =
      read? (beyondFields? limits fields) (Table.ofPairs (before.reverse ++ fields), rest) := by
  induction fields generalizing gap before fuel with
  | nil => exact absurd rfl hne
  | cons e fields ih =>
    obtain ⟨fuel, rfl⟩ : ∃ n, fuel = n + 1 := ⟨fuel - 1, by omega⟩
    obtain ⟨hjson, hread⟩ := hfields e List.mem_cons_self
    rw [List.map_cons] at hfuel ⊢
    by_cases hlast : fields = []
    · subst hlast
      rw [List.map_nil, row_singleton] at hfuel ⊢
      rw [readFields_step hjson hread hgap (hgap'.closes (.inr (.inr rfl)) rest) (by omega),
        beyondFields?, beyondFields?, Option.or_none]
      cases beyond? limits e.2 with
      | some flaw => rfl
      | none =>
        dsimp only [read?]
        rw [skipGap_append hgap' (by decide)]
        simp
    · have hrow : fields.map (fieldText layout level) ≠ [] := by simpa using hlast
      obtain ⟨more, hmore, htext⟩ := exists_gap_row hblank level (fieldText layout level e) hrow
      have hlength := congrArg List.length htext
      simp only [List.length_append, List.length_cons, String.length_toList] at hlength
      rw [htext, List.append_assoc, List.cons_append, List.append_assoc,
        readFields_step hjson hread hgap (closes_cons (.inl rfl) _) (by omega), beyondFields?]
      cases beyond? limits e.2 with
      | some flaw => rfl
      | none =>
        have hrest : readFields fuel limits (e :: before) (more ++
            ((row layout level (fields.map (fieldText layout level))).toList ++
              (gap' ++ '\x7d' :: rest))) = _ :=
          ih hlast (fun w hw => hfields w (List.mem_cons_of_mem e hw)) hmore (by omega)
        dsimp only [read?]
        rw [skipGap_cons (by decide), Option.none_or]
        simpa [read?] using hrest

/-- A list is read back between its brackets. -/
theorem readValue_list (hblank : layout.Blank) {items : List Value}
    (hitems : ∀ v ∈ items, v.IsJson ∧ ReadBack layout v)
    (hfuel : (writeAt layout level (.list items)).length ≤ fuel + 1) :
    readValue (fuel + 1) limits ((writeAt layout level (.list items)).toList ++ rest) =
      read? (beyond? limits (.list items)) (.list items, rest) := by
  have hword : ∀ cs, readWord ('[' :: cs) = none :=
    fun cs => readWord_eq_none (by rintro _ ⟨⟩; decide)
  rw [writeAt_list] at hfuel ⊢
  cases items with
  | nil =>
    have htext : (bracketed layout level "[" "]" []).toList = ['[', ']'] := by
      simp [bracketed]
    rw [List.map_nil, htext, List.cons_append, readValue, hword, beyond?]
    cases limits.depth with
    | zero => rfl
    | succ depth => rfl
  | cons v items =>
    have hrow : (v :: items).map (writeAt layout (level + 1)) ≠ [] := List.cons_ne_nil _ _
    have hlength := length_row_le layout level "[" "]" hrow
    obtain ⟨c, cs, hcs, hc, hbracket, -⟩ := begins_row layout (level + 1)
      (begins_writeAt layout (level + 1) (hitems v List.mem_cons_self).1)
      (items.map (writeAt layout (level + 1)))
    rw [← List.map_cons] at hcs
    have htext : (bracketed layout level "[" "]"
          ((v :: items).map (writeAt layout (level + 1)))).toList ++ rest =
        '[' :: ((layout.newline (level + 1)).toList ++
          ((row layout (level + 1) ((v :: items).map (writeAt layout (level + 1)))).toList ++
            ((layout.newline level).toList ++ ']' :: rest))) := by
      rw [toList_bracketed layout level _ _ hrow]
      simp
    rw [htext, readValue, hword, beyond?]
    cases limits.depth with
    | zero => rfl
    | succ depth =>
      have hones : "[".length = 1 ∧ "]".length = 1 := ⟨rfl, rfl⟩
      have hread : readItems fuel { limits with depth } [] ([] ++
          ((row layout (level + 1) ((v :: items).map (writeAt layout (level + 1)))).toList ++
            ((layout.newline level).toList ++ ']' :: rest))) = _ :=
        readItems_write hblank (List.cons_ne_nil v items) hitems gap_nil
          (Layout.gap_newline hblank level) (by omega)
      rw [List.nil_append, hcs, List.cons_append] at hread
      rw [hcs, List.cons_append, skipGap_append (Layout.gap_newline hblank (level + 1)) hc]
      dsimp only
      split
      · next heq => exact absurd (List.cons.inj heq).1 hbracket
      · rw [hread]
        cases beyondItems? { limits with depth } (v :: items) <;> rfl

/-- A record is read back between its brackets. -/
theorem readValue_record (hblank : layout.Blank) {fields : Table Value} (hnames : fields.keys.Nodup)
    (hfields : ∀ e ∈ fields, e.2.IsJson ∧ ReadBack layout e.2)
    (hfuel : (writeAt layout level (.record fields)).length ≤ fuel + 1) :
    readValue (fuel + 1) limits ((writeAt layout level (.record fields)).toList ++ rest) =
      read? (beyond? limits (.record fields)) (.record fields, rest) := by
  have hword : ∀ cs, readWord ('\x7b' :: cs) = none :=
    fun cs => readWord_eq_none (by rintro _ ⟨⟩; decide)
  rw [writeAt_record] at hfuel ⊢
  cases fields with
  | nil =>
    have htext : (bracketed layout level "\x7b" "\x7d" []).toList = ['\x7b', '\x7d'] := by
      simp [bracketed]
    rw [List.map_nil, htext, List.cons_append, readValue, hword, beyond?]
    cases limits.depth with
    | zero => rfl
    | succ depth => rfl
  | cons e fields =>
    have hrow : (e :: fields).map (fieldText layout (level + 1)) ≠ [] := List.cons_ne_nil _ _
    have hlength := length_row_le layout level "\x7b" "\x7d" hrow
    obtain ⟨c, cs, hcs, hc, -, hbracket⟩ := begins_row layout (level + 1)
      (begins_fieldText layout (level + 1) e) (fields.map (fieldText layout (level + 1)))
    rw [← List.map_cons] at hcs
    have htext : (bracketed layout level "\x7b" "\x7d"
          ((e :: fields).map (fieldText layout (level + 1)))).toList ++ rest =
        '\x7b' :: ((layout.newline (level + 1)).toList ++
          ((row layout (level + 1) ((e :: fields).map (fieldText layout (level + 1)))).toList ++
            ((layout.newline level).toList ++ '\x7d' :: rest))) := by
      rw [toList_bracketed layout level _ _ hrow]
      simp
    rw [htext, readValue, hword, beyond?]
    cases limits.depth with
    | zero => rfl
    | succ depth =>
      have hones : "\x7b".length = 1 ∧ "\x7d".length = 1 := ⟨rfl, rfl⟩
      have hread : readFields fuel { limits with depth } [] ([] ++
          ((row layout (level + 1) ((e :: fields).map (fieldText layout (level + 1)))).toList ++
            ((layout.newline level).toList ++ '\x7d' :: rest))) = _ :=
        readFields_write hblank (List.cons_ne_nil e fields) hfields gap_nil
          (Layout.gap_newline hblank level) (by omega)
      rw [List.nil_append, hcs, List.cons_append, List.reverse_nil, List.nil_append,
        Table.ofPairs_of_nodup hnames] at hread
      rw [hcs, List.cons_append, skipGap_append (Layout.gap_newline hblank (level + 1)) hc]
      dsimp only
      split
      · next heq => exact absurd (List.cons.inj heq).1 hbracket
      · rw [hread]
        cases beyondFields? { limits with depth } (e :: fields) <;> rfl

end Brackets

/-! ### All values -/

/-- Something is written of every value, so that there is fuel to begin with. -/
theorem readBack_of_succ {layout : Layout} {v : Value} (hv : v.IsJson)
    (h : ∀ {level fuel : ℕ} {limits : Limits} {rest : List Char},
      (writeAt layout level v).length ≤ fuel + 1 → Closes rest →
        readValue (fuel + 1) limits ((writeAt layout level v).toList ++ rest) =
          read? (beyond? limits v) (v, rest)) : ReadBack layout v := by
  refine ⟨fun {level fuel limits rest} hfuel hrest => ?_⟩
  have hpos := length_writeAt_pos layout level hv
  obtain ⟨fuel, rfl⟩ : ∃ n, fuel = n + 1 := ⟨fuel - 1, by omega⟩
  exact h hfuel hrest

/-- **Values are read back.** Whatever can be said in JSON is read back where it is written, or
refused for the first thing in it that is beyond the limits. -/
theorem readBack {layout : Layout} (hblank : layout.Blank) {v : Value} (hv : v.IsJson) :
    ReadBack layout v := by
  induction hv with
  | null =>
    have hword : ("null", Value.null) ∈ words := by simp [words]
    refine readBack_of_succ .null fun _ _ => ?_
    rw [writeAt, readValue_word _ _ hword]
    rfl
  | bool b =>
    have hword : (if b then "true" else "false", Value.bool b) ∈ words := by
      cases b <;> simp [words]
    refine readBack_of_succ (.bool b) fun _ _ => ?_
    rw [writeAt, readValue_word _ _ hword]
    rfl
  | int n => exact readBack_of_succ (.int n) fun _ hrest => readValue_int n hrest
  | double hnumber =>
    refine readBack_of_succ (.double hnumber) fun _ hrest => ?_
    rw [writeAt, readValue_double hnumber hrest]
    rfl
  | text s =>
    refine readBack_of_succ (.text s) fun _ _ => ?_
    rw [writeAt, readValue_text]
    rfl
  | list hitems ih =>
    exact readBack_of_succ (.list hitems) fun hfuel _ =>
      readValue_list hblank (fun v hv => ⟨hitems v hv, ih v hv⟩) hfuel
  | record hnames hfields ih =>
    exact readBack_of_succ (.record hnames hfields) fun hfuel _ =>
      readValue_record hblank hnames (fun e he => ⟨hfields e he, ih e he⟩) hfuel

/-- **A text is read as the value it was written for**, unless there is something beyond the limits
in it. -/
theorem readWithin_write {layout : Layout} (hblank : layout.Blank) {v : Value} (hv : v.IsJson)
    (limits : Limits) : readWithin limits (write layout v) = read? (beyond? limits v) v := by
  obtain ⟨c, cs, hcs, hc, -⟩ := begins_writeAt layout 0 hv
  have hskip : skipGap (writeAt layout 0 v).toList = (writeAt layout 0 v).toList := by
    rw [hcs, skipGap_cons hc]
  have hfuel : (writeAt layout 0 v).length ≤ 2 * (writeAt layout 0 v).toList.length + 2 := by
    rw [String.length_toList]
    omega
  have hread : readValue _ limits ((writeAt layout 0 v).toList ++ []) = _ :=
    (readBack hblank hv).read hfuel nofun
  rw [List.append_nil] at hread
  rw [readWithin, write, hskip, hread]
  cases beyond? limits v <;> rfl

/-! ### Limits that are never reached -/

section Limits

variable {layout : Layout} {level : ℕ} {limits : Limits}

/-- A list without an entry out of bounds is in bounds. -/
theorem beyondItems?_eq_none {items : List Value} (h : ∀ v ∈ items, beyond? limits v = none) :
    beyondItems? limits items = none := by
  induction items with
  | nil => rw [beyondItems?]
  | cons v items ih =>
    rw [beyondItems?, h v List.mem_cons_self, ih fun w hw => h w (List.mem_cons_of_mem v hw)]
    rfl

/-- A record without a value out of bounds is in bounds. -/
theorem beyondFields?_eq_none {fields : List (String × Value)}
    (h : ∀ e ∈ fields, beyond? limits e.2 = none) : beyondFields? limits fields = none := by
  induction fields with
  | nil => rw [beyondFields?]
  | cons e fields ih =>
    rw [beyondFields?, h e List.mem_cons_self, ih fun w hw => h w (List.mem_cons_of_mem e hw)]
    rfl

/-- Brackets and what stands between them are longer than each text between them. -/
theorem length_lt_bracketed {first last : String} {texts : List String} {text : String}
    (hfirst : 0 < first.length) (h : text ∈ texts) :
    text.length < (bracketed layout level first last texts).length := by
  have hrow := length_row_le layout level first last (List.ne_nil_of_mem h)
  have htext : text.length ≤ (row layout (level + 1) texts).length := length_le_row h
  omega

/-- Nothing is beyond limits as large as the text. -/
theorem beyond?_eq_none {v : Value} (hv : v.IsJson) (level : ℕ) (limits : Limits)
    (hdepth : (writeAt layout level v).length ≤ limits.depth)
    (hdigits : (writeAt layout level v).length ≤ limits.digits) : beyond? limits v = none := by
  induction hv generalizing level limits with
  | null | bool | double | text => rfl
  | int n =>
    rw [writeAt, ← String.length_toList, toList_toString] at hdigits
    rw [beyond?, if_neg]
    split_ifs at hdigits
    · rw [List.length_cons] at hdigits
      omega
    · omega
  | @list items hitems ih =>
    obtain ⟨depth, digits⟩ := limits
    dsimp only at hdepth hdigits
    obtain ⟨depth, rfl⟩ : ∃ d, depth = d + 1 := ⟨depth - 1, by
      have := length_writeAt_pos layout level (.list hitems)
      omega⟩
    rw [beyond?]
    refine beyondItems?_eq_none fun v hv => ?_
    have hlt :
        (writeAt layout (level + 1) v).length < (writeAt layout level (.list items)).length := by
      rw [writeAt_list]
      exact length_lt_bracketed (by decide) (List.mem_map_of_mem hv)
    refine ih v hv (level + 1) ⟨depth, digits⟩ ?_ ?_ <;> dsimp only <;> omega
  | @record fields hnames hfields ih =>
    obtain ⟨depth, digits⟩ := limits
    dsimp only at hdepth hdigits
    obtain ⟨depth, rfl⟩ : ∃ d, depth = d + 1 := ⟨depth - 1, by
      have := length_writeAt_pos layout level (.record hnames hfields)
      omega⟩
    rw [beyond?]
    refine beyondFields?_eq_none fun e he => ?_
    have hlt : (fieldText layout (level + 1) e).length <
        (writeAt layout level (.record fields)).length := by
      rw [writeAt_record]
      exact length_lt_bracketed (by decide) (List.mem_map_of_mem he)
    rw [fieldText, String.length_append] at hlt
    refine ih e he (level + 1) ⟨depth, digits⟩ ?_ ?_ <;> dsimp only <;> omega

/-- **A text is read as the value it was written for.** -/
theorem read_write (hblank : layout.Blank) {v : Value} (hv : v.IsJson) :
    Json.read (write layout v) = some v := by
  rw [Json.read, readWithin_write hblank hv,
    beyond?_eq_none hv 0 ⟨(write layout v).length, (write layout v).length⟩ le_rfl le_rfl]
  rfl

end Limits

end MarkupRouting.Json
