import MarkupRouting.Markup.Reader
import MarkupRouting.Proofs.Markup.Reports
import MarkupRouting.Routing.OneShot

/-!
# Ways to drive a document

A document may be given in several forms, read so much at a time, and driven by a dispatcher or by
one of the functions that make one for the purpose; or the list of its events is driven. No handler
and no report can tell these ways apart.

* **Source.Gives** — what hands out a document: the document, or the list of its events.
* **Task.Rerun** — a task again, on some machine and with so much read at a time.
* **Task.Way** — the outcomes of the ways in which a document is driven.
* **Task.ways_alike** — they are alike.
-/

namespace MarkupRouting

open Markup

variable {H σ : Type}

/-- What hands out a document, where it is read as the options say: the document in one of its
forms, or the list of its events, however much of it was read at a time to make the list. -/
inductive Source.Gives (t : Tokenizer) (o : Document.Options) (doc : String) : Source → Prop where
  | document {s : Source} (hs : s.Holds doc) (hsize : s.Admits o.chunkSize) : Gives t o doc s
  | events {s : Source} {chunkSize : Value} (hs : s.Holds doc) (hsize : s.Admits chunkSize)
      (correlation : Value) (typeName : String) (closable : Bool) :
      Gives t o doc (.items typeName
        (.ofItems (Document.feed t { o with chunkSize, correlation } s).items) closable)

namespace Task

/-- The second task is the first one again, with so much read at a time, on a machine whose readings
of memory are of a kind. -/
structure Rerun (R : Int → Prop) (t : Task H σ) (chunkSize : Value) (t' : Task H σ) : Prop where
  /-- The settings are the same but for how much is read at a time. -/
  settings : t'.settings.getD {} = { t.settings.getD {} with chunkSize }
  /-- The rest is the same but for the machine. -/
  machine : ∃ meter elapsed, (∀ n, R (meter n)) ∧
    t' = { t with settings := t'.settings, around := { t.around with meter, elapsed } }

/-- The options under which documents are read for a task. -/
def options (t : Task H σ) : Document.Options :=
  Document.Options.ofSettings (t.settings.getD {}) .null

/-- The outcomes of the ways in which a document is driven: by a function that makes a dispatcher
for the purpose, or by a dispatcher that has the same rules and may have driven other documents. -/
inductive Way (R : Int → Prop) (t : Task H σ) (doc : String) : Outcome H σ → Prop where
  | process {t' : Task H σ} {chunkSize : Value} {s : Source} (ht : t.Rerun R chunkSize t')
      (hs : s.Gives t'.tokenizer t'.options doc) : Way R t doc (t'.process s)
  | text {t' : Task H σ} {chunkSize : Value} (ht : t.Rerun R chunkSize t')
      (hsize : Source.Admits (.text doc) chunkSize) : Way R t doc (t'.processText (.text doc))
  | bytes {t' : Task H σ} {chunkSize : Value} (ht : t.Rerun R chunkSize t')
      (hsize : Source.Admits (.bytes (Document.encode doc.toList)) chunkSize) :
      Way R t doc (t'.processText (.bytes (Document.encode doc.toList)))
  | file {t' : Task H σ} {chunkSize : Value} {name : String} {reach : Reach}
      (find : String → Option File) (ht : t.Rerun R chunkSize t')
      (hsize : Source.Admits (.file name (some ⟨Document.encode doc.toList, reach⟩)) chunkSize) :
      Way R t doc (t'.processFile find (.file name (some ⟨Document.encode doc.toList, reach⟩)))
  | fileName {t' : Task H σ} {chunkSize : Value} {name : String} {reach : Reach}
      {find : String → Option File} (ht : t.Rerun R chunkSize t')
      (hfind : find name = some ⟨Document.encode doc.toList, reach⟩)
      (hsize : Source.Admits (.file name (some ⟨Document.encode doc.toList, reach⟩)) chunkSize) :
      Way R t doc (t'.processFile find (.text name))
  | drive {t' : Task H σ} {chunkSize : Value} {d : Dispatcher H} {ledger : Ledger} {s : Source}
      (ht : t.Rerun R chunkSize t')
      (hd : (Dispatcher.make (t'.settings.getD {}) t'.rules).2 = .ok d)
      (hledger : ledger.reset = {}) (hs : s.Gives t'.tokenizer t'.options doc) :
      Way R t doc ({ d with ledger }.drive t'.behavior t'.tokenizer t'.around s t'.world).1

end Task

/-! ### Sources -/

namespace Dispatcher

variable {t : Tokenizer} {doc : String} {marks : List Mark}

/-- A source that gives a document is opened, and hands out what the document spells. -/
theorem openSource_of_gives {settings : Settings}
    (hread : t.Reads settings.resolveEntities.isTruthy settings.hugeTree.isTruthy
      (Document.encode doc.toList) marks) :
    ∃ whole : Feed, ∀ (d : Dispatcher H) chunkSize correlation s,
      d.settings = { settings with chunkSize } →
      s.Gives t (.ofSettings { settings with chunkSize } .null) doc →
      ∃ feed closable,
        d.openSource t correlation s = .ok (feed, closable) ∧ feed.joined = whole := by
  obtain ⟨whole, hlast, hwhole⟩ :=
    Document.joined_feed hread settings.stripNamespaces.isTruthy
  refine ⟨whole, fun d chunkSize correlation s hd hs => ?_⟩
  cases hs with
  | events hs hsize correlation typeName closable =>
      have hfeed := hwhole _ correlation _ hs hsize
      refine ⟨_, closable, rfl, ?_⟩
      exact (Feed.joined_ofItems ((congrArg Feed.last hfeed).trans hlast)).trans hfeed
  | document hs hsize =>
      have hfeed := hwhole chunkSize correlation _ hs hsize
      have hopen : Document.open? t (Document.Options.ofSettings d.settings correlation) s =
          .ok (Document.feed t (Document.Options.ofSettings d.settings correlation) s) := by
        rw [hd, Document.open?]
        have hbig := Document.atMostZero_of_admits hsize
        dsimp only [Document.Options.ofSettings] at hbig ⊢
        rw [hbig]
      have hopens : d.openSource t correlation s =
          (Document.open? t (Document.Options.ofSettings d.settings correlation) s).map
            (·, true) := by
        cases hs <;> rfl
      rw [hopens, hopen]
      refine ⟨_, true, rfl, ?_⟩
      rw [hd]
      exact hfeed

/-- Rules are kept alike however much is read at a time. -/
theorem make_reading (settings : Settings) (chunkSize : Value) (rules : Mapping (Offer H)) :
    (make { settings with chunkSize } rules).2 =
      (make settings rules).2.map fun d => d.reading chunkSize := by
  unfold make
  dsimp only
  cases ((RuleBook.empty settings.defaultMode).registerAll rules).2.2 with
  | some flaw => rfl
  | none => rfl

/-- A dispatcher that was made is idle, and built nothing. -/
theorem made_eq {settings : Settings} {rules : Mapping (Offer H)} {d : Dispatcher H}
    (h : (make settings rules).2 = .ok d) :
    d.settings = settings ∧ d.driving = false ∧ d.ledger = {} := by
  unfold make at h
  dsimp only at h
  cases hflaw : ((RuleBook.empty settings.defaultMode).registerAll rules).2.2 with
  | some flaw =>
      rw [hflaw] at h
      cases h
  | none =>
      rw [hflaw] at h
      obtain rfl := Except.ok.inj h
      exact ⟨rfl, rfl, rfl⟩

end Dispatcher

/-! ### Tasks -/

namespace Task

variable {t t' : Task H σ} {R : Int → Prop} {chunkSize : Value} {doc : String} {marks : List Mark}
  {d : Dispatcher H} {fault : Fault} {o o' : Outcome H σ}

/-- With rules from which a dispatcher can be made, the dispatcher drives the source. -/
theorem process_of_made (h : (Dispatcher.make (t.settings.getD {}) t.rules).2 = .ok d)
    (s : Source) :
    ∃ records, t.process s =
      { (d.drive t.behavior t.tokenizer t.around s t.world).1 with records } := by
  unfold process
  generalize Dispatcher.make (t.settings.getD {}) t.rules = made at h ⊢
  obtain ⟨records, made⟩ := made
  cases h
  exact ⟨_, rfl⟩

/-- With other rules nothing is driven. -/
theorem process_of_refused
    (h : (Dispatcher.make (t.settings.getD {}) t.rules).2 = .error fault) (s : Source) :
    ∃ records, t.process s = { t.refused fault with records } := by
  unfold process
  generalize Dispatcher.make (t.settings.getD {}) t.rules = made at h ⊢
  obtain ⟨records, made⟩ := made
  cases h
  exact ⟨_, rfl⟩

/-- The dispatcher made for a task again is the one made for the task, when it reads so much at a
time. -/
theorem Rerun.make_eq (h : t.Rerun R chunkSize t') :
    (Dispatcher.make (t'.settings.getD {}) t'.rules).2 =
      (Dispatcher.make (t.settings.getD {}) t.rules).2.map fun d => d.reading chunkSize := by
  obtain ⟨meter, elapsed, -, hrest⟩ := h.machine
  have hrules : t'.rules = t.rules := by rw [hrest]
  rw [h.settings, hrules, Dispatcher.make_reading]

/-- Each way comes to a source that gives the document: a function that makes a dispatcher drives
one, or a dispatcher does that was made before. -/
theorem Way.drives (h : t.Way R doc o) :
    ∃ t' chunkSize s, t.Rerun R chunkSize t' ∧ s.Gives t'.tokenizer t'.options doc ∧
      ((∃ records, o = { t'.process s with records }) ∨
        ∃ (d : Dispatcher H) (ledger : Ledger),
          (Dispatcher.make (t'.settings.getD {}) t'.rules).2 = .ok d ∧ ledger.reset = {} ∧
          o = ({ d with ledger }.drive t'.behavior t'.tokenizer t'.around s t'.world).1) := by
  have hgives : ∀ {t' : Task H σ} {chunkSize} {s : Source}, t.Rerun R chunkSize t' → s.Holds doc →
      s.Admits chunkSize → s.Gives t'.tokenizer t'.options doc := by
    intro t' chunkSize s ht hs hsize
    have hchunk : t'.options.chunkSize = chunkSize := congrArg Settings.chunkSize ht.settings
    exact .document hs (hchunk ▸ hsize)
  cases h with
  | process ht hs => exact ⟨_, _, _, ht, hs, .inl ⟨_, rfl⟩⟩
  | text ht hsize => exact ⟨_, _, _, ht, hgives ht .text hsize, .inl ⟨_, rfl⟩⟩
  | bytes ht hsize => exact ⟨_, _, _, ht, hgives ht .bytes hsize, .inl ⟨_, rfl⟩⟩
  | file find ht hsize => exact ⟨_, _, _, ht, hgives ht (.file _ _) hsize, .inl ⟨_, rfl⟩⟩
  | @fileName t' chunkSize name reach find ht hfind hsize =>
      have hfile : t'.processFile find (.text name) =
          t'.process (.file name (some ⟨Document.encode doc.toList, reach⟩)) := by
        rw [processFile, hfind]
      exact ⟨_, _, _, ht, hgives ht (.file _ _) hsize, .inl ⟨_, hfile⟩⟩
  | drive ht hd hledger hs => exact ⟨_, _, _, ht, hs, .inr ⟨_, _, hd, hledger, rfl⟩⟩

/-- With rules from which no dispatcher can be made each way ends in the same fault. -/
theorem Way.refused (h : t.Way R doc o)
    (hmake : (Dispatcher.make (t.settings.getD {}) t.rules).2 = .error fault) :
    ∃ records, o = { t.refused fault with records } := by
  obtain ⟨t', chunkSize, s, ht, -, hway⟩ := h.drives
  have hmake' : (Dispatcher.make (t'.settings.getD {}) t'.rules).2 = .error fault := by
    rw [ht.make_eq, hmake]
    rfl
  have hrefused : t'.refused fault = t.refused fault := by
    obtain ⟨meter, elapsed, -, hrest⟩ := ht.machine
    rw [hrest]
    rfl
  rcases hway with ⟨records, rfl⟩ | ⟨d, ledger, hd, -⟩
  · obtain ⟨records', hprocess⟩ := process_of_refused hmake' s
    exact ⟨records, by rw [hprocess, hrefused]⟩
  · rw [hmake'] at hd
    cases hd

/-- With rules from which a dispatcher can be made each way is a drive of such a dispatcher. -/
theorem Way.made (h : t.Way R doc o)
    (hmake : (Dispatcher.make (t.settings.getD {}) t.rules).2 = .ok d) :
    ∃ (chunkSize : Value) (ledger : Ledger) (meter : Nat → Int) (elapsed : Double) (s : Source)
        (records : List Log.Record), ledger.reset = {} ∧ (∀ n, R (meter n)) ∧
      s.Gives t.tokenizer (.ofSettings { t.settings.getD {} with chunkSize } .null) doc ∧
      o = { ({ d.reading chunkSize with ledger }.drive t.behavior t.tokenizer
        { t.around with meter, elapsed } s t.world).1 with records } := by
  obtain ⟨t', chunkSize, s, ht, hs, hway⟩ := h.drives
  have hmake' : (Dispatcher.make (t'.settings.getD {}) t'.rules).2 = .ok (d.reading chunkSize) := by
    rw [ht.make_eq, hmake]
    rfl
  obtain ⟨meter, elapsed, hmeter, hrest⟩ := ht.machine
  have hgives :
      s.Gives t.tokenizer (.ofSettings { t.settings.getD {} with chunkSize } .null) doc := by
    have htokenizer : t'.tokenizer = t.tokenizer := by rw [hrest]
    rw [← htokenizer, ← ht.settings]
    exact hs
  have hdrive : ∀ d : Dispatcher H, d.drive t'.behavior t'.tokenizer t'.around s t'.world =
      d.drive t.behavior t.tokenizer { t.around with meter, elapsed } s t.world := by
    intro d
    rw [hrest]
  rcases hway with ⟨records, rfl⟩ | ⟨made, ledger, hmade, hledger, rfl⟩
  · obtain ⟨records', hprocess⟩ := process_of_made hmake' s
    have hledger : (d.reading chunkSize).ledger.reset = {} := by
      rw [(Dispatcher.made_eq hmake').2.2]
      rfl
    refine ⟨chunkSize, (d.reading chunkSize).ledger, meter, elapsed, s, records, hledger, hmeter,
      hgives, ?_⟩
    rw [hprocess, hdrive]
  · obtain rfl := Except.ok.inj (hmake'.symm.trans hmade)
    have hsame := congrArg Prod.fst (hdrive { d.reading chunkSize with ledger })
    exact ⟨chunkSize, ledger, meter, elapsed, s, _, hledger, hmeter, hgives, hsame⟩

/-- The ways to drive a document are alike, where all readings of a kind count as one. -/
theorem Way.alike (hread : t.tokenizer.Reads (t.settings.getD {}).resolveEntities.isTruthy
      (t.settings.getD {}).hugeTree.isTruthy (Document.encode doc.toList) marks)
    {memory : Value → Value} (hmemory : ∀ x y, R x → R y → memory (.int x) = memory (.int y))
    (ho : t.Way R doc o) (ho' : t.Way R doc o') : o.Alike memory o' := by
  cases hmake : (Dispatcher.make (t.settings.getD {}) t.rules).2 with
  | error fault =>
      obtain ⟨records, rfl⟩ := ho.refused hmake
      obtain ⟨records', rfl⟩ := ho'.refused hmake
      exact ⟨rfl, rfl, rfl⟩
  | ok d =>
      obtain ⟨chunkSize, ledger, meter, elapsed, s, records, hledger, hmeter, hs, rfl⟩ :=
        ho.made hmake
      obtain ⟨chunkSize', ledger', meter', elapsed', s', records', hledger', hmeter', hs', rfl⟩ :=
        ho'.made hmake
      obtain ⟨hsettings, hidle, -⟩ := Dispatcher.made_eq hmake
      obtain ⟨whole, hwhole⟩ := Dispatcher.openSource_of_gives (H := H) hread
      let around : Surroundings := { t.around with meter, elapsed }
      have hopen : ∀ (chunkSize : Value) (ledger : Ledger) s,
          s.Gives t.tokenizer (.ofSettings { t.settings.getD {} with chunkSize } .null) doc →
          ∃ feed closable, ({ d.reading chunkSize with ledger } : Dispatcher H).openSource
            t.tokenizer (d.identity around) s = .ok (feed, closable) ∧ feed.joined = whole := by
        intro chunkSize ledger s hs
        refine hwhole _ chunkSize _ s ?_ hs
        rw [← hsettings]
        rfl
      obtain ⟨feed, closable, hfeed, hjoined⟩ := hopen chunkSize ledger s hs
      obtain ⟨feed', closable', hfeed', hjoined'⟩ := hopen chunkSize' ledger' s' hs'
      have hsame : ({ d.reading chunkSize' with ledger := ledger' } : Dispatcher H).engaged =
          ({ d.reading chunkSize with ledger } : Dispatcher H).engaged.reading chunkSize' := by
        unfold Dispatcher.engaged
        dsimp only
        rw [hledger, hledger']
        rfl
      have hidle₁ : ({ d.reading chunkSize with ledger } : Dispatcher H).driving = false := hidle
      have hidle₂ :
          ({ d.reading chunkSize' with ledger := ledger' } : Dispatcher H).driving = false := hidle
      have hmeters : ∀ n, R (around.meter n) := hmeter
      obtain ⟨-, hcalls, hworld, hresult⟩ := Dispatcher.alike_drive hidle₁ hidle₂ hsame hfeed hfeed'
        (hjoined.trans hjoined'.symm) hmemory hmeters hmeter' t.behavior elapsed' t.world
      exact ⟨hcalls, hworld, hresult⟩

/-- **The ways to drive a document are alike** (`process`, `process_string`, `process_file` and
`RuleDispatcher.drive`), if the tokenizer is incremental for it: whether it is given as a text, as
bytes, as a file or as an open one, however much of it is read at a time, as long as it can be asked
for so much, whether a dispatcher drives it, or a function that makes one, or whether the list of
its events is driven. The same calls are made, with the same subjects, and the same comes of them,
but for the count of events, the time and the amounts of resident memory; where that is constant,
those are the same as well. -/
theorem ways_alike (t : Task H σ) {doc : String} {marks : List Mark}
    (hread : t.tokenizer.Reads (t.settings.getD {}).resolveEntities.isTruthy
      (t.settings.getD {}).hugeTree.isTruthy (Document.encode doc.toList) marks)
    {R : Int → Prop} {o o' : Outcome H σ} (ho : t.Way R doc o) (ho' : t.Way R doc o') :
    o.Alike Value.sampled o' ∧ ((∃ bytes, ∀ x, R x → x = bytes) → o.Alike id o') := by
  refine ⟨ho.alike hread (fun _ _ _ _ => rfl) ho', ?_⟩
  rintro ⟨bytes, hconstant⟩
  refine ho.alike hread (fun x y hx hy => ?_) ho'
  rw [hconstant x hx, hconstant y hy]

/-- A document with a character in it that takes two bytes. -/
def accent : String := "<p>é</p>"

/-- What is reported of it. -/
def accentMarks : List Mark := [.start "p" [], .data "é", .finish "p"]

/-- The standard tokenizer is incremental for it. -/
theorem reads_accent :
    standard.Reads false false (Document.encode accent.toList) accentMarks := by
  have hname : Mark.IsName "p" := ⟨"p", rfl, by decide⟩
  refine Tokenizer.reads_of_cuts (by decide) (by decide +kernel) ?_
  exact ⟨hname, nofun, hname, [], rfl, rfl⟩

/-- The texts of its elements are kept, and so much of it is read at a time. -/
def accented (chunkSize : Value) : Task Unit (List String) :=
  { rules := [(.text "p", .handler ())]
    settings := some { chunkSize }
    behavior := Dispatcher.keeping
    tokenizer := standard
    around := Dispatcher.calm
    world := [] }

/-- A file with that document, on a machine with room for little. -/
def accentFile : File := ⟨Document.encode accent.toList, .ofMemory fun n => n < 64⟩

/-- Characters one by one are as good as pairs of bytes, the second of which breaks off inside a
character. -/
theorem ways_alike_accent :
    let t := accented (.int 1)
    let find := fun _ => some accentFile
    t.tokenizer.Reads false false (Document.encode accent.toList) accentMarks ∧
      Source.Admits (.text accent) (.int 1) ∧
      Source.Admits (.file "p.xml" (some accentFile)) (.int 2) ∧
      (t.processText (.text accent)).Alike id
        ((accented (.int 2)).processFile find (.text "p.xml")) := by
  intro t find
  have hone : Source.Admits (.text accent) (.int 1) := ⟨1, rfl, by decide, rfl⟩
  have htwo : Source.Admits (.file "p.xml" (some accentFile)) (.int 2) := ⟨2, rfl, by decide, rfl⟩
  have hrerun : ∀ chunkSize, t.Rerun (· = 0) chunkSize (accented chunkSize) := fun chunkSize =>
    ⟨rfl, Dispatcher.calm.meter, Dispatcher.calm.elapsed, fun _ => rfl, rfl⟩
  have htext : t.Way (· = 0) accent (t.processText (.text accent)) := .text (hrerun (.int 1)) hone
  have hfile : t.Way (· = 0) accent ((accented (.int 2)).processFile find (.text "p.xml")) :=
    .fileName (hrerun (.int 2)) rfl htwo
  exact ⟨reads_accent, hone, htwo, (ways_alike t reads_accent htext hfile).2 ⟨0, fun _ h => h⟩⟩

/-- The dispatcher that is made for the document, where so much of it is read at a time. -/
def accentDispatcher (chunkSize : Value) : Dispatcher Unit :=
  { settings := { chunkSize }
    book :=
      { defaultMode := .normalize
        rules := [⟨⟨"p", [.element "p"], false, 0⟩, none, some (), .normalize⟩]
        next := 1 } }

/-- More than is in the document can be asked of a text. -/
theorem openSource_accent {n : Nat} (h : accent.toList.length ≤ n) (correlation : Value) :
    (accentDispatcher (.int n)).openSource standard correlation (.text accent) =
      .ok (Document.feedOf standard { chunkSize := .int n, correlation } true
        [Document.encode accent.toList], true) := by
  have hchunks : Document.chunks (.int n) (.text accent) = .ok [Document.encode accent.toList] :=
    Document.chunks_of_length_le (by decide) h
  have hpos : (Value.int n).atMostZero? = some false := by
    have hlength : 0 < accent.toList.length := by decide
    rw [Value.atMostZero?, decide_eq_false (by omega)]
  have hfeed : Document.feed standard { chunkSize := .int n, correlation } (.text accent) =
      Document.feedOf standard { chunkSize := .int n, correlation } true
        [Document.encode accent.toList] := by
    rw [Document.feed, hchunks]
    rfl
  rw [← hfeed]
  unfold Dispatcher.openSource Document.open?
  dsimp only [accentDispatcher, Document.Options.ofSettings]
  rw [hpos]
  rfl

/-- Of an open file not everything can be asked for that can be asked of a text, be it one in memory
(`io.BytesIO`): with one more than the largest machine number the text is driven, and the open file
refused. -/
theorem not_alike_of_chunkSize :
    let t := accented (.int (2 ^ 63 : Nat))
    let file : File := ⟨Document.encode accent.toList, .ofNumbers⟩
    t.tokenizer.Reads false false file.contents accentMarks ∧
      Source.Holds accent (.text accent) ∧ Source.Holds accent (.byteStream file) ∧
      (t.process (.text accent)).world = ["é"] ∧
      (t.process (.byteStream file)).result = .error .tooLarge ∧
      ¬ (t.process (.text accent)).Alike Value.sampled (t.process (.byteStream file)) := by
  intro t file
  have hmake : (Dispatcher.make (t.settings.getD {}) t.rules).2 =
      .ok (accentDispatcher (.int (2 ^ 63 : Nat))) := by rfl
  have htext : (t.process (.text accent)).world = ["é"] := by
    obtain ⟨records, hprocess⟩ := process_of_made hmake (.text accent)
    have hkept : ((accentDispatcher (.int (2 ^ 63 : Nat))).drive Dispatcher.keeping standard
        Dispatcher.calm (.text accent) []).1.world = ["é"] := by
      have hopen := openSource_accent (n := 2 ^ 63) (by decide)
        ((accentDispatcher (.int (2 ^ 63 : Nat))).identity Dispatcher.calm)
      rw [Dispatcher.drive_opened rfl hopen]
      decide +kernel
    rw [hprocess]
    exact hkept
  have hstream : (t.process (.byteStream file)).world = [] := by rfl
  refine ⟨reads_accent, .text, .byteStream _, htext, by rfl, fun halike => ?_⟩
  have hworld := halike.world
  rw [htext, hstream] at hworld
  cases hworld

end Task

end MarkupRouting
