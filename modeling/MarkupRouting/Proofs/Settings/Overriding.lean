import MarkupRouting.Settings
import MarkupRouting.Proofs.Json.Values

/-!
# Settings from settings

Whichever way settings are made, they come of one check of named values. A value that is given for a
field is taken for itself, but that a text mode may be given by its word; so the check says what the
fields of the settings are, and settings that are made of the fields of others are these others.

* **Settings.TakenFor** — what a given value is taken for.
* **check_eq_ok_iff** — which settings named values describe; **exists_check_iff** — which named
  values describe any.
* **exists_override_iff**, **exists_make_iff** — which changes can be made.
* **override_override** — changes one after the other are made at once.
* **override_unknown** — names that are no fields.
* **override_same**, **ofTable_toTable** — settings made of values of their own.
* **Settings.Made** — the ways to make settings; **Made.sound** — what they all keep.
-/

namespace MarkupRouting.Settings

/-! ### What values are taken for -/

/-- The value that is given for a field, null where there is none. -/
def given (t : Table Value) (name : String) : Value := (t.get? name).getD .null

/-- What a given value is taken for: in the field of the text mode the word for a mode for this
mode, and everything else for itself. -/
def TakenFor (name : String) (v taken : Value) : Prop :=
  if name = "default_whitespace" then ∃ m, TextMode.ofValue? v = some m ∧ taken = .mode m
  else taken = v

/-- The settings are as the checks ask for (`DispatchConfig.__post_init__`): the size of the pieces
and the interval of samples are numbers above zero. That the mode and the level are some of the
known ones is in their types. -/
structure Sound (s : Settings) : Prop where
  /-- The chunk size is a number above zero. -/
  chunkSize : s.chunkSize.atMostZero? = some false
  /-- The sampling interval is a number above zero. -/
  sampleInterval : s.sampleInterval.atMostZero? = some false

/-- The levels are known by their names, and by no others. -/
theorem ofName?_eq_some_iff {name : String} {level : Log.Level} :
    Log.Level.ofName? name = some level ↔ name = level.name := by
  constructor
  · intro h
    have hname := List.find?_some h
    exact (beq_iff_eq.mp hname).symm
  · rintro rfl
    cases level <;> rfl

/-- A value is accepted as positive exactly if it is compared with zero and found above; it is kept
as it was given. -/
theorem positive_eq_ok_iff {flaw : Flaw} {v w : Value} :
    positive flaw v = .ok w ↔ v.atMostZero? = some false ∧ w = v := by
  rw [positive]
  split
  · next h => simp [h]
  · next h => simp [h]
  · next h => simp [h, eq_comm]

/-- A value names a level exactly if it is the text of its name. -/
theorem toText?_bind_ofName? {v : Value} {level : Log.Level} :
    v.toText?.bind Log.Level.ofName? = some level ↔ .text level.name = v := by
  cases v with
  | text name =>
    rw [Value.toText?, Option.bind_some, ofName?_eq_some_iff, Value.text.injEq, eq_comm]
  | _ => simp [Value.toText?]

/-- What the fields of settings are taken from, field by field. -/
theorem forall_takenFor_iff {t : Table Value} {s : Settings} :
    (∀ e ∈ s.fields, TakenFor e.1 (given t e.1) e.2) ↔
      TextMode.ofValue? (given t "default_whitespace") = some s.defaultMode ∧
        s.stripNamespaces = given t "strip_namespaces" ∧ s.chunkSize = given t "chunk_size" ∧
        s.resolveEntities = given t "resolve_entities" ∧ s.hugeTree = given t "huge_tree" ∧
        s.trackMemory = given t "track_memory" ∧
        s.sampleInterval = given t "memory_sample_interval" ∧
        .text s.loggingLevel.name = given t "logging_level" ∧
        s.correlation = given t "correlation_id" := by
  simp [fields, TakenFor]

/-- **Named values describe settings** where each of them is taken for the value of its field, and
the settings are as the checks ask for. -/
theorem check_eq_ok_iff {t : Table Value} {s : Settings} :
    check t = .ok s ↔ (∀ e ∈ s.fields, TakenFor e.1 (given t e.1) e.2) ∧ s.Sound := by
  have hcheck : check t = .ok s ↔
      ∃ m, TextMode.ofValue? (given t "default_whitespace") = some m ∧
        ∃ chunk, positive .chunkSize (given t "chunk_size") = .ok chunk ∧
          ∃ interval, positive .sampleInterval (given t "memory_sample_interval") = .ok interval ∧
            ∃ level, (given t "logging_level").toText?.bind Log.Level.ofName? = some level ∧
              s = ⟨m, given t "strip_namespaces", chunk, given t "resolve_entities",
                given t "huge_tree", given t "track_memory", interval, level,
                given t "correlation_id"⟩ := by
    rw [check]
    simp only [given]
    cases TextMode.ofValue? ((t.get? "default_whitespace").getD .null) <;>
    cases positive .chunkSize ((t.get? "chunk_size").getD .null) <;>
    cases positive .sampleInterval ((t.get? "memory_sample_interval").getD .null) <;>
    cases (((t.get? "logging_level").getD .null).toText?.bind Log.Level.ofName?) <;>
    simp [bind, Except.bind, pure, Except.pure, eq_comm]
  rw [hcheck, forall_takenFor_iff]
  constructor
  · rintro ⟨m, hmode, chunk, hchunk, interval, hinterval, level, hlevel, rfl⟩
    obtain ⟨hchunkPos, rfl⟩ := positive_eq_ok_iff.mp hchunk
    obtain ⟨hintervalPos, rfl⟩ := positive_eq_ok_iff.mp hinterval
    rw [toText?_bind_ofName?] at hlevel
    exact ⟨⟨hmode, rfl, rfl, rfl, rfl, rfl, rfl, hlevel, rfl⟩, hchunkPos, hintervalPos⟩
  · rintro ⟨htaken, hchunkPos, hintervalPos⟩
    obtain ⟨mode, names, chunk, entities, huge, memory, interval, level, correlation⟩ := s
    obtain ⟨hmode, rfl, rfl, rfl, rfl, rfl, rfl, hlevel, rfl⟩ := htaken
    exact ⟨mode, hmode, _, positive_eq_ok_iff.mpr ⟨hchunkPos, rfl⟩, _,
      positive_eq_ok_iff.mpr ⟨hintervalPos, rfl⟩, level, toText?_bind_ofName?.mpr hlevel, rfl⟩

/-- The named values are as the checks ask for. -/
structure Fit (t : Table Value) : Prop where
  /-- There is a text mode of that kind. -/
  mode : ∃ m, TextMode.ofValue? (given t "default_whitespace") = some m
  /-- The chunk size is a number above zero. -/
  chunkSize : (given t "chunk_size").atMostZero? = some false
  /-- The sampling interval is a number above zero. -/
  sampleInterval : (given t "memory_sample_interval").atMostZero? = some false
  /-- The logging level is the name of one. -/
  level : ∃ name ∈ levelNames, given t "logging_level" = .text name

/-- **There are settings exactly for named values that are as the checks ask for.** -/
theorem exists_check_iff {t : Table Value} : (∃ s, check t = .ok s) ↔ Fit t := by
  constructor
  · rintro ⟨s, h⟩
    obtain ⟨htaken, hsound⟩ := check_eq_ok_iff.mp h
    obtain ⟨hmode, -, hchunk, -, -, -, hinterval, hlevel, -⟩ := forall_takenFor_iff.mp htaken
    have hlisted : s.loggingLevel.name ∈ levelNames := by
      cases s.loggingLevel <;> decide
    exact ⟨⟨_, hmode⟩, hchunk ▸ hsound.chunkSize, hinterval ▸ hsound.sampleInterval,
      _, hlisted, hlevel.symm⟩
  · rintro ⟨⟨m, hmode⟩, hchunk, hinterval, name, hname, hgiven⟩
    obtain ⟨level, -, rfl⟩ := List.mem_map.mp hname
    refine ⟨⟨m, given t "strip_namespaces", given t "chunk_size", given t "resolve_entities",
      given t "huge_tree", given t "track_memory", given t "memory_sample_interval", level,
      given t "correlation_id"⟩, check_eq_ok_iff.mpr ⟨?_, hchunk, hinterval⟩⟩
    exact forall_takenFor_iff.mpr ⟨hmode, rfl, rfl, rfl, rfl, rfl, rfl, hgiven.symm, rfl⟩

/-! ### Fields -/

/-- No setting has the name of another one. -/
theorem nodup_fieldNames : fieldNames.Nodup := by decide

/-- The fields of settings are named in a fixed order. -/
theorem keys_fields (s : Settings) : s.fields.keys = fieldNames := rfl

/-- Every field is found under its name. -/
theorem get?_fields {s : Settings} {name : String} {v : Value} :
    s.fields.get? name = some v ↔ (name, v) ∈ s.fields :=
  Table.get?_eq_some_iff (keys_fields s ▸ nodup_fieldNames)

/-- Every setting has a value. -/
theorem exists_field (s : Settings) {name : String} (h : name ∈ fieldNames) :
    ∃ v, (name, v) ∈ s.fields := by
  obtain ⟨⟨_, v⟩, hmem, rfl⟩ := List.mem_map.mp (keys_fields s ▸ h)
  exact ⟨v, hmem⟩

/-- Only settings have one. -/
theorem mem_fieldNames {s : Settings} {name : String} {v : Value} (h : (name, v) ∈ s.fields) :
    name ∈ fieldNames :=
  keys_fields s ▸ List.mem_map.mpr ⟨_, h, rfl⟩

/-- In its own field a value stands for itself only. -/
theorem takenFor_field {s : Settings} {name : String} {v w : Value} (h : (name, w) ∈ s.fields) :
    TakenFor name w v ↔ v = w := by
  rw [TakenFor]
  split_ifs with hname
  · subst hname
    obtain rfl : Value.mode s.defaultMode = w := Option.some.inj (get?_fields.mpr h)
    simp [TextMode.ofValue?]
  · rfl

/-- Of two values given for a setting the later one counts. -/
theorem given_update (t changes : Table Value) (name : String) :
    given (t.update changes) name = (Table.get? changes.reverse name).getD (given t name) := by
  rw [given, Table.get?_update]
  cases Table.get? changes.reverse name <;> rfl

/-! ### Changes -/

/-- The unknown names are those given that name no setting. -/
theorem mem_unknownNames {changes : Table Value} {name : String} :
    name ∈ unknownNames changes ↔ name ∈ changes.keys ∧ name ∉ fieldNames := by
  simp [unknownNames]

/-- No name is unknown exactly where all that are given name settings. -/
theorem isEmpty_unknownNames_iff {changes : Table Value} :
    (unknownNames changes).isEmpty = true ↔ ∀ name ∈ changes.keys, name ∈ fieldNames := by
  simp [List.eq_nil_iff_forall_not_mem, mem_unknownNames]

/-- Settings are made where all names are fields and the fields, the others at their defaults, are
as the checks ask for. -/
theorem make_eq_ok_iff {s : Settings} {fields : Table Value} :
    make fields = .ok s ↔
      (∀ name ∈ fields.keys, name ∈ fieldNames) ∧
        check (Table.update ({} : Settings).fields fields) = .ok s := by
  rw [make, ← isEmpty_unknownNames_iff]
  split_ifs with h
  · exact (and_iff_right h).symm
  · exact iff_of_false nofun fun hmade => h hmade.1

/-- Settings are overridden where all names are fields and the changed fields are as the checks ask
for. -/
theorem override_eq_ok_iff {s s' : Settings} {changes : Table Value} :
    s.override changes = .ok s' ↔
      (∀ name ∈ changes.keys, name ∈ fieldNames) ∧ check (s.fields.update changes) = .ok s' := by
  have hself : "self" ∉ fieldNames := by decide
  rw [override]
  split_ifs with hrefused
  · rw [List.contains_iff_mem] at hrefused
    exact iff_of_false nofun fun h => hself (h.1 _ hrefused)
  · rw [← isEmpty_unknownNames_iff]
    dsimp only
    split_ifs with h
    · exact (and_iff_right h).symm
    · exact iff_of_false nofun fun hmade => h hmade.1

/-- The changes can be made to the settings: their names are fields, and the changed fields are as
the checks ask for. -/
def Accepts (s : Settings) (changes : Table Value) : Prop :=
  (∀ name ∈ changes.keys, name ∈ fieldNames) ∧ Fit (s.fields.update changes)

/-- Settings can be overridden exactly by values that are accepted (`override`). -/
theorem exists_override_iff {s : Settings} {changes : Table Value} :
    (∃ s', s.override changes = .ok s') ↔ s.Accepts changes := by
  simp only [override_eq_ok_iff, exists_and_left, exists_check_iff, Accepts]

/-- Settings can be made of exactly the values that the usual ones can be overridden by. -/
theorem exists_make_iff {fields : Table Value} :
    (∃ s, make fields = .ok s) ↔ ({} : Settings).Accepts fields := by
  simp only [make_eq_ok_iff, exists_and_left, exists_check_iff, Accepts]

/-- **Changes made one after the other are made at once**: the settings are those that the first
changes, updated by the second ones, make. -/
theorem override_override {s s₁ s₂ : Settings} {a b : Table Value} (ha : a.keys.Nodup)
    (h₁ : s.override a = .ok s₁) (h₂ : s₁.override b = .ok s₂) :
    s.override (a.update b) = .ok s₂ := by
  obtain ⟨hnames, hcheck⟩ := override_eq_ok_iff.mp h₁
  obtain ⟨hnames', hcheck'⟩ := override_eq_ok_iff.mp h₂
  obtain ⟨htaken, -⟩ := check_eq_ok_iff.mp hcheck
  obtain ⟨htaken', hsound⟩ := check_eq_ok_iff.mp hcheck'
  refine override_eq_ok_iff.mpr ⟨fun name h => ?_, check_eq_ok_iff.mpr ⟨?_, hsound⟩⟩
  · exact (Table.mem_keys_update.mp h).elim (hnames name) (hnames' name)
  · rintro ⟨name, v⟩ he
    have hfound : given (s.fields.update (a.update b)) name =
        (Table.get? b.reverse name).getD (given (s.fields.update a) name) := by
      rw [given, Table.get?_update_update _ ha]
      exact given_update _ b name
    have hv := htaken' _ he
    dsimp only at hv ⊢
    rw [given_update] at hv
    rw [hfound]
    cases hchange : Table.get? b.reverse name with
    | some w =>
      rw [hchange] at hv
      exact hv
    | none =>
      -- The second changes leave the field to what the first ones have made of it.
      obtain ⟨w, hw⟩ := exists_field s₁ (mem_fieldNames he)
      rw [hchange, Option.getD_none, given, get?_fields.mpr hw, Option.getD_some,
        takenFor_field hw] at hv
      subst hv
      exact htaken _ hw

/-- **The least name that is no field is at fault**, whatever values are given. -/
theorem override_unknown (s : Settings) {changes : Table Value} (hself : "self" ∉ changes.keys)
    (hunknown : ∃ name ∈ changes.keys, name ∉ fieldNames) :
    ∃ least others, s.override changes = .error (.unknownFields (least :: others)) ∧
      least ∈ changes.keys ∧ least ∉ fieldNames ∧
        ∀ name ∈ changes.keys, name ∉ fieldNames → least ≤ name := by
  have htrans : ∀ a b c : String, decide (a ≤ b) = true → decide (b ≤ c) = true →
      decide (a ≤ c) = true := by
    intro a b c hab hbc
    exact decide_eq_true (String.le_trans (of_decide_eq_true hab) (of_decide_eq_true hbc))
  have htotal : ∀ a b : String, (decide (a ≤ b) || decide (b ≤ a)) = true := by
    intro a b
    simpa using String.le_total a b
  have hsorted : (unknownNames changes).Pairwise (· ≤ ·) :=
    (List.pairwise_mergeSort htrans htotal _).imp of_decide_eq_true
  obtain ⟨name, hname⟩ := hunknown
  have hne : unknownNames changes ≠ [] := List.ne_nil_of_mem (mem_unknownNames.mpr hname)
  obtain ⟨least, others, hnames⟩ := List.exists_cons_of_ne_nil hne
  have hleast : least ∈ changes.keys ∧ least ∉ fieldNames :=
    mem_unknownNames.mp (hnames ▸ List.mem_cons_self)
  refine ⟨least, others, ?_, hleast.1, hleast.2, fun other hother hfield => ?_⟩
  · rw [override, if_neg (by simpa using hself), hnames]
    rfl
  · have hmem : other ∈ least :: others := hnames ▸ mem_unknownNames.mpr ⟨hother, hfield⟩
    rw [hnames] at hsorted
    rcases List.mem_cons.mp hmem with rfl | hmem
    · exact String.le_refl _
    · exact (List.pairwise_cons.mp hsorted).1 other hmem

/-! ### Values of their own -/

/-- Every field but that of the text mode has a value that can be said in JSON. -/
def HoldsJson (s : Settings) : Prop :=
  ∀ e ∈ s.fields, e.1 ≠ "default_whitespace" → e.2.IsJson

/-- There is no text mode in a value of JSON, so nothing to be written as a word. -/
theorem plain_of_isJson {v : Value} (h : v.IsJson) : plain v = v := by
  cases h <;> rfl

/-- The plain value of a field is taken for the value of the field. -/
theorem takenFor_plain {s : Settings} (h : s.HoldsJson) {e : String × Value} (he : e ∈ s.fields) :
    TakenFor e.1 (plain e.2) e.2 := by
  obtain ⟨name, v⟩ := e
  rw [TakenFor]
  split_ifs with hname
  · obtain rfl : name = "default_whitespace" := hname
    obtain rfl : Value.mode s.defaultMode = v := Option.some.inj (get?_fields.mpr he)
    refine ⟨s.defaultMode, ?_, rfl⟩
    cases s.defaultMode <;> rfl
  · exact (plain_of_isJson (h _ he hname)).symm

/-- Plain values of settings, set over settings that agree with them in every other field, make
these settings. -/
theorem override_plain {base s : Settings} (hjson : s.HoldsJson) (hsound : s.Sound)
    {changes : Table Value} (hchanges : ∀ e ∈ changes, e ∈ s.toTable)
    (hothers : ∀ name ∈ fieldNames, name ∉ changes.keys →
      base.fields.get? name = s.fields.get? name) :
    base.override changes = .ok s := by
  have hplain : ∀ e ∈ changes, ∃ v, (e.1, v) ∈ s.fields ∧ plain v = e.2 := by
    intro e he
    obtain ⟨⟨name, v⟩, hmem, rfl⟩ := List.mem_map.mp (hchanges e he)
    exact ⟨v, hmem, rfl⟩
  refine override_eq_ok_iff.mpr ⟨fun name hname => ?_, check_eq_ok_iff.mpr ⟨?_, hsound⟩⟩
  · obtain ⟨e, he, rfl⟩ := List.mem_map.mp hname
    obtain ⟨v, hv, -⟩ := hplain e he
    exact mem_fieldNames hv
  · rintro ⟨name, v⟩ he
    dsimp only
    rw [given_update]
    cases hchange : Table.get? changes.reverse name with
    | some w =>
      obtain ⟨v', hv', rfl⟩ := hplain _ (List.mem_reverse.mp (Table.mem_of_get? hchange))
      obtain rfl : v = v' := Option.some.inj ((get?_fields.mpr he).symm.trans (get?_fields.mpr hv'))
      exact takenFor_plain hjson he
    | none =>
      have hname : name ∉ changes.keys := by
        rw [Table.get?_eq_none_iff, Table.keys, List.map_reverse, List.mem_reverse] at hchange
        exact hchange
      rw [Option.getD_none, given, hothers name (mem_fieldNames he) hname, get?_fields.mpr he]
      exact (takenFor_field he).mpr rfl

/-- **Settings overridden with values of their own stay as they are.** -/
theorem override_same {s : Settings} (hjson : s.HoldsJson) (hsound : s.Sound)
    {changes : Table Value} (h : ∀ e ∈ changes, e ∈ s.toTable) : s.override changes = .ok s :=
  override_plain hjson hsound h fun _ _ _ => rfl

/-- Settings are written under the names they are read by (`to_dict`). -/
theorem keys_toTable (s : Settings) : s.toTable.keys = fieldNames := rfl

/-- **The named values of settings describe these settings.** -/
theorem ofTable_toTable {s : Settings} (hjson : s.HoldsJson) (hsound : s.Sound) :
    ofTable s.toTable = .ok s :=
  override_plain hjson hsound (fun _ he => he) fun _ hname hmissing =>
    absurd (keys_toTable s ▸ hname) hmissing

/-! ### The ways to make settings -/

/-- The settings were made in one of the ways to make settings: directly, from plain values or a
text, by the two that are ready-made, or from other settings by overriding some of them. -/
inductive Made : Settings → Prop
  /-- From some of the fields, the others at their defaults. -/
  | make {fields : Table Value} {s : Settings} (h : make fields = .ok s) : Made s
  /-- From settings with some fields changed. -/
  | override {s s' : Settings} {changes : Table Value} (hs : Made s)
      (h : s.override changes = .ok s') : Made s'
  /-- From plain named values. -/
  | ofTable {t : Table Value} {s : Settings} (h : ofTable t = .ok s) : Made s
  /-- From a JSON text. -/
  | ofJson {text : String} {s : Settings} (h : ofJson text = .ok s) : Made s
  /-- The preset for very large documents. -/
  | streaming : Made streaming
  /-- The preset for looking closely. -/
  | debugging : Made debugging

/-- What comes of overriding was checked, field by field. -/
theorem sound_of_override {s s' : Settings} {changes : Table Value}
    (h : s.override changes = .ok s') : s'.Sound :=
  (check_eq_ok_iff.mp (override_eq_ok_iff.mp h).2).2

/-- What is read off a text is read off a table (`from_json` goes through `from_dict`). -/
theorem exists_ofTable_of_ofJson {text : String} {s : Settings} (h : ofJson text = .ok s) :
    ∃ t, ofTable t = .ok s := by
  rw [ofJson] at h
  split at h
  · next v _ =>
    cases v with
    | record t => exact ⟨t, h⟩
    | _ => cases h
  · cases h

/-- **However settings are made, they are as the checks ask for.** -/
theorem Made.sound {s : Settings} (h : Made s) : s.Sound := by
  cases h with
  | make h => exact (check_eq_ok_iff.mp (make_eq_ok_iff.mp h).2).2
  | override _ h => exact sound_of_override h
  | ofTable h => exact sound_of_override h
  | ofJson h =>
    obtain ⟨t, ht⟩ := exists_ofTable_of_ofJson h
    exact sound_of_override ht
  | streaming => exact ⟨by decide, by decide⟩
  | debugging => exact ⟨by decide, by decide⟩

end MarkupRouting.Settings
