import MarkupRouting.Proofs.Json.RoundTrip
import MarkupRouting.Proofs.Settings.Overriding

/-!
# Settings there and back

Settings whose values can be said in JSON are found again in their own named values and in their
JSON texts. Between the settings and their plain form only the text mode changes its type; reading
it back is one more check of named values, so that all ways back end in the same lemma about values
of their own.

* **Value.alike_self** — what can be said in JSON is equal to itself.
* **Json.Layout.exists_ofIndent**, **blank_ofIndent** — the indentations there are, and those that
  set things apart by gaps.
* **ofJson_toJson** — the settings that are read from a JSON text of settings.
* **Settings.RoundTrips** — the ways back to the settings.
* **Settings.round_trips** — what holds of all settings, however they were made.
-/

namespace MarkupRouting

/-! ### Equality with oneself -/

namespace Value

/-- A list whose items are each like themselves is like itself. -/
theorem alikeItems_self {items : List Value} (h : ∀ v ∈ items, v.alike v = true) :
    alikeItems items items = true := by
  induction items with
  | nil => rw [alikeItems]
  | cons v items ih =>
    rw [alikeItems, h v List.mem_cons_self, Bool.true_and]
    exact ih fun w hw => h w (List.mem_cons_of_mem v hw)

/-- Fields are equal to those of a record in which they are found, if their values are equal to
themselves. -/
theorem alikeFields_of_found {fields all : Table Value}
    (h : ∀ e ∈ fields, all.get? e.1 = some e.2 ∧ e.2.alike e.2 = true) :
    alikeFields fields all = true := by
  induction fields with
  | nil => rw [alikeFields]
  | cons e fields ih =>
    obtain ⟨hfound, halike⟩ := h e List.mem_cons_self
    rw [alikeFields, show List.lookup e.1 all = some e.2 from hfound]
    dsimp only
    rw [halike, Bool.true_and]
    exact ih fun w hw => h w (List.mem_cons_of_mem e hw)

/-- A record with a name for each value is like itself if its values are. -/
theorem alike_record_self {fields : Table Value} (hnames : fields.keys.Nodup)
    (h : ∀ e ∈ fields, e.2.alike e.2 = true) : (record fields).alike (record fields) = true := by
  rw [alike, beq_self_eq_true, Bool.true_and]
  exact alikeFields_of_found fun e he => ⟨(Table.get?_eq_some_iff hnames).mpr he, h e he⟩

/-- What can be said in JSON is equal to itself. -/
theorem alike_self {v : Value} (h : v.IsJson) : v.alike v = true := by
  induction h with
  | null => rw [alike]
  | bool | int => simp [alike, alikeNumbers, toFraction?]
  | @double x hnumber => cases hfinite : x.isInfinite <;>
      simp [alike, alikeNumbers, toFraction?, hnumber, hfinite]
  | text => rw [alike, beq_self_eq_true]
  | list _ ih =>
    rw [alike]
    exact alikeItems_self ih
  | record hnames _ ih => exact alike_record_self hnames ih

end Value

/-! ### Indentations -/

namespace Json.Layout

/-- The indentations there are: none at all, any margin, and a number of spaces for which there is
memory. -/
def Offered (memory : Nat → Bool) : Value → Prop
  | .null | .text _ => True
  | v => ∃ n, v.toInt? = some n ∧ -2 ^ 63 ≤ n ∧ n < 2 ^ 63 ∧ memory n.toNat = true

/-- The indentation is a gap wherever it is given as a margin. -/
def OfGaps (indent : Value) : Prop :=
  ∀ margin, indent = .text margin → ∀ c ∈ margin.toList, isGap c = true

/-- Each of them makes a layout. -/
theorem exists_ofIndent {memory : Nat → Bool} {indent : Value} (h : Offered memory indent) :
    ∃ layout, ofIndent memory indent = .ok layout := by
  cases indent with
  | null | text => exact ⟨_, rfl⟩
  | bool | int =>
    obtain ⟨n, hn, hlow, hhigh, hmemory⟩ := h
    have hfits : ¬ (n < -Nat.pow 2 63 || Nat.pow 2 63 ≤ n) = true := by
      simp only [Nat.pow_eq, Bool.or_eq_true, decide_eq_true_eq]
      omega
    simp only [ofIndent, hn, if_neg hfits, hmemory, if_true]
    exact ⟨_, rfl⟩
  | _ =>
    obtain ⟨n, hn, -⟩ := h
    cases hn

/-- What an indentation of gaps sets apart is set apart by gaps. -/
theorem blank_ofIndent {memory : Nat → Bool} {indent : Value} {layout : Layout}
    (h : ofIndent memory indent = .ok layout) (hgaps : OfGaps indent) : layout.Blank := by
  have hspaces : ∀ n : ℕ, (block (String.ofList (List.replicate n ' '))).Blank := by
    intro n c hc
    rw [String.toList_ofList] at hc
    rw [List.eq_of_mem_replicate hc]
    rfl
  cases indent with
  | null =>
    obtain rfl := Except.ok.inj h
    trivial
  | text margin =>
    obtain rfl := Except.ok.inj h
    exact hgaps margin rfl
  | _ =>
    simp only [ofIndent] at h
    split at h
    · cases h
    · split_ifs at h
      obtain rfl := Except.ok.inj h
      exact hspaces _

end Json.Layout

namespace Settings

/-! ### JSON texts of settings -/

/-- The plain form of the settings can be said in JSON. -/
theorem isJson_toTable {s : Settings} (h : s.HoldsJson) : (Value.record s.toTable).IsJson := by
  refine .record (keys_toTable s ▸ nodup_fieldNames) fun e he => ?_
  obtain ⟨⟨name, v⟩, hmem, rfl⟩ := List.mem_map.mp he
  by_cases hname : name = "default_whitespace"
  · subst hname
    obtain rfl : Value.mode s.defaultMode = v := Option.some.inj (get?_fields.mpr hmem)
    exact .text _
  · have hv := h _ hmem hname
    dsimp only
    rw [plain_of_isJson hv]
    exact hv

/-- Settings are like themselves, unless one of their values is no number. -/
theorem alike_self {s : Settings} (h : s.HoldsJson) : s.alike s = true := by
  refine Value.alike_record_self (keys_fields s ▸ nodup_fieldNames) fun e he => ?_
  by_cases hname : e.1 = "default_whitespace"
  · obtain ⟨name, v⟩ := e
    obtain rfl : name = "default_whitespace" := hname
    obtain rfl : Value.mode s.defaultMode = v := Option.some.inj (get?_fields.mpr he)
    rw [Value.alike, beq_self_eq_true]
  · exact Value.alike_self (h e he hname)

/-- There is a JSON text of settings (`to_json`) where there is a layout with the indentation and
nothing is beyond what can be written. -/
theorem toIndented_eq_ok_iff {s : Settings} {desk : Json.Desk} {indent : Value} {text : String} :
    s.toIndented desk indent = .ok text ↔
      Json.beyond? desk.limits (.record s.toTable) = none ∧
        ∃ layout, Json.Layout.ofIndent desk.memory indent = .ok layout ∧
          s.toJson layout = text := by
  rw [toIndented]
  cases Json.Layout.ofIndent desk.memory indent <;>
    cases Json.beyond? desk.limits (.record s.toTable) <;> simp

/-- The settings that are read from a JSON text of settings are these, unless the reader meets one
of its limits. -/
theorem ofJson_toJson {s : Settings} (hjson : s.HoldsJson) (hsound : s.Sound)
    {layout : Json.Layout} (hblank : layout.Blank) :
    ofJson (s.toJson layout) =
      match Json.beyond? jsonLimits (.record s.toTable) with
      | none => .ok s
      | some flaw => .error (.json flaw) := by
  rw [ofJson, toJson, Json.readWithin_write hblank (isJson_toTable hjson)]
  cases Json.beyond? jsonLimits (.record s.toTable) with
  | none => exact ofTable_toTable hjson hsound
  | some flaw => rfl

/-! ### The ways back -/

/-- The ways from the settings to a plain form of them lead back to the settings: from plain values
(`to_dict`), and from a text with any indentation (`to_json`). -/
structure RoundTrips (s : Settings) : Prop where
  /-- The settings are equal to themselves. -/
  alike : s.alike s = true
  /-- Back from the named values. -/
  named : ofTable s.toTable = .ok s
  /-- Back from some of the named values, given as changes. -/
  changed : ∀ changes : Table Value, (∀ e ∈ changes, e ∈ s.toTable) → s.override changes = .ok s
  /-- There is a JSON text with every indentation there is, if nothing is beyond what can be
  written. -/
  written : ∀ (desk : Json.Desk) indent, Json.Layout.Offered desk.memory indent →
    Json.beyond? desk.limits (.record s.toTable) = none →
      ∃ text, s.toIndented desk indent = .ok text
  /-- Back from every JSON text that is read as what it was written for. -/
  read : ∀ (desk : Json.Desk) indent text, s.toIndented desk indent = .ok text →
    Json.readWithin jsonLimits text = .ok (.record s.toTable) → ofJson text = .ok s
  /-- A text indented by gaps is read so, up to the limits of the reader. -/
  readGaps : ∀ (desk : Json.Desk) indent text, s.toIndented desk indent = .ok text →
    Json.Layout.OfGaps indent → Json.read text = some (.record s.toTable) ∧
      ofJson text =
        match Json.beyond? jsonLimits (.record s.toTable) with
        | none => .ok s
        | some flaw => .error (.json flaw)

/-- There are no settings but a flaw in the names: the field at fault is the least name among the
given ones that is no field. -/
def BlamesLeast (changes : Table Value) (result : Except Flaw Settings) : Prop :=
  ∃ flaw least, result = .error flaw ∧ flaw.kind = "ConfigValidationError" ∧
    flaw.field? = some least ∧ least ∈ changes.keys ∧ least ∉ fieldNames ∧
      ∀ name ∈ changes.keys, name ∉ fieldNames → least ≤ name

theorem roundTrips {s : Settings} (hjson : s.HoldsJson) (hsound : s.Sound) : s.RoundTrips where
  alike := alike_self hjson
  named := ofTable_toTable hjson hsound
  changed _ h := override_same hjson hsound h
  written desk indent h hwithin := by
    obtain ⟨layout, hlayout⟩ := Json.Layout.exists_ofIndent h
    exact ⟨_, toIndented_eq_ok_iff.mpr ⟨hwithin, layout, hlayout, rfl⟩⟩
  read desk indent text _ h := by
    rw [ofJson, h]
    exact ofTable_toTable hjson hsound
  readGaps desk indent text h hgaps := by
    obtain ⟨-, layout, hlayout, rfl⟩ := toIndented_eq_ok_iff.mp h
    have hblank := Json.Layout.blank_ofIndent hlayout hgaps
    exact ⟨Json.read_write hblank (isJson_toTable hjson), ofJson_toJson hjson hsound hblank⟩

/-- An override with unknown names is refused for the least of them, whatever else is wrong with
it. -/
theorem blamesLeast (s : Settings) {changes : Table Value} (hself : "self" ∉ changes.keys)
    (hunknown : ∃ name ∈ changes.keys, name ∉ fieldNames) :
    BlamesLeast changes (s.override changes) := by
  obtain ⟨least, others, hflaw, hleast⟩ := override_unknown s hself hunknown
  exact ⟨_, least, hflaw, rfl, rfl, hleast⟩

/-- **Settings, however they were made, are as the checks ask for, and are found again in their
plain forms** (`override`, `to_dict`, `to_json` and the ways back) if these can be said in JSON.
Settings are made exactly where the named values are as the checks ask for; changes made in turn are
made at once by the first ones updated by the second ones, and changes with names that are no fields
are refused for the least of these names. -/
theorem round_trips {s : Settings} (h : s.Made) :
    (s.Sound ∧ s.loggingLevel.name ∈ levelNames ∧ s.defaultMode ∈ TextMode.all) ∧
      (∀ changes : Table Value,
        ((∃ s', s.override changes = .ok s') ↔ s.Accepts changes) ∧
          ((∃ s', ofTable changes = .ok s') ↔ ({} : Settings).Accepts changes) ∧
          ((∃ s', make changes = .ok s') ↔ ({} : Settings).Accepts changes)) ∧
      (s.HoldsJson → s.RoundTrips) ∧
      (∀ (a b : Table Value) (s₁ s₂ : Settings), a.keys.Nodup →
        s.override a = .ok s₁ → s₁.override b = .ok s₂ → s.override (a.update b) = .ok s₂) ∧
      ∀ changes : Table Value, "self" ∉ changes.keys →
        (∃ name ∈ changes.keys, name ∉ fieldNames) →
          BlamesLeast changes (s.override changes) ∧ BlamesLeast changes (ofTable changes) := by
  have hlevel : ∀ level : Log.Level, level.name ∈ levelNames := by
    intro level
    cases level <;> decide
  have hmode : ∀ m : TextMode, m ∈ TextMode.all := by
    intro m
    cases m <;> decide
  refine ⟨⟨h.sound, hlevel _, hmode _⟩, fun changes => ?_, fun hjson => roundTrips hjson h.sound,
    ?_, ?_⟩
  · exact ⟨exists_override_iff, exists_override_iff, exists_make_iff⟩
  · intro a b s₁ s₂ ha h₁ h₂
    exact override_override ha h₁ h₂
  · intro changes hself hunknown
    exact ⟨blamesLeast s hself hunknown, blamesLeast {} hself hunknown⟩

/-- Settings that trim texts. The identity of their runs is a tenth beside a text with a quote, a
line break and characters beyond ASCII. -/
def labelled : Settings :=
  { defaultMode := .trim
    correlation := .list [.double ⟨0x3FB999999999999A⟩, .text "\"é\n😀"] }

theorem round_trips_labelled :
    labelled.Made ∧ labelled.HoldsJson ∧
      (∃ text, labelled.toIndented ⟨fun n => decide (n < 8), jsonLimits⟩ (.int 2) = .ok text ∧
        ofJson text = .ok labelled) ∧
      ofTable labelled.toTable = .ok labelled ∧
      labelled.override [("default_whitespace", .text "trim")] = .ok labelled ∧
      labelled.override [("chunk_size", .int 7), ("huge_tree", .null)] =
        .ok { labelled with chunkSize := .int 7, hugeTree := .null } ∧
      BlamesLeast [("pace", .null), ("chunk_size", .int 0), ("area", .null)]
        (labelled.override [("pace", .null), ("chunk_size", .int 0), ("area", .null)]) := by
  have hmade : labelled.Made :=
    @Made.make [("default_whitespace", .text " Trim "), ("correlation_id", labelled.correlation)]
      labelled (make_eq_ok_iff.mpr ⟨by decide, rfl⟩)
  have hjson : labelled.HoldsJson := by
    intro e he hname
    simp only [fields, labelled, List.mem_cons, List.not_mem_nil, or_false] at he
    rcases he with rfl | rfl | rfl | rfl | rfl | rfl | rfl | rfl | rfl
    · exact absurd rfl hname
    iterate 7 constructor
    refine .list (List.forall_mem_cons.mpr ⟨.double (by decide), ?_⟩)
    exact List.forall_mem_singleton.mpr (.text _)
  obtain ⟨-, -, htrips, hinTurn, hunknown⟩ := round_trips hmade
  obtain ⟨text, htext⟩ := (htrips hjson).written ⟨fun n => decide (n < 8), jsonLimits⟩ (.int 2)
    ⟨2, rfl, by decide, by decide, by decide⟩ (by decide)
  refine ⟨hmade, hjson, ⟨text, htext, ?_⟩, (htrips hjson).named, ?_, ?_, ?_⟩
  · have hgaps : Json.Layout.OfGaps (.int 2) := by
      intro margin h
      cases h
    exact ((htrips hjson).readGaps _ _ _ htext hgaps).2
  · exact (htrips hjson).changed _ (by simp [toTable, fields, labelled, plain, TextMode.word])
  · exact hinTurn [("chunk_size", .int 4096)] [("chunk_size", .int 7), ("huge_tree", .null)]
      { labelled with chunkSize := .int 4096 } _ (by decide)
      (override_eq_ok_iff.mpr ⟨by decide, rfl⟩) (override_eq_ok_iff.mpr ⟨by decide, rfl⟩)
  · exact (hunknown _ (by decide) ⟨"pace", by decide, by decide⟩).1

end Settings

end MarkupRouting
