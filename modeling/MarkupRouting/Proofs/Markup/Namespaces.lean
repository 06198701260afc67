import Mathlib.Data.List.TakeWhile
import MarkupRouting.Proofs.Markup.Streaming

/-!
# Names without their namespaces

A tokenizer reports a name that is in a namespace behind the URI of that, in braces. Where names
lose their namespaces, what stands up to the first closing brace is taken for the URI. So a name is
delivered as its local part exactly where there is no such brace in the URI, and as long as there is
none it does not matter which URI it is.

* **Table.Gathers** — the table in which of several entries with one name the first place and the
  last value count; **gathers_ofPairs** — how attributes are put together.
* **ExpandedName**, **ExpandedMark** — names and reports with the namespaces apart.
* **ExpandedName.shown**, **shown_eq_base_iff** — what a name is delivered as.
* **ExpandedMark.Delivers**, **delivers_eventOf** — the event for a report.
* **ExpandedMark.eventOf_mark**, **bare_rename** — it depends on the names as they are delivered
  only, and these on no URI without a closing brace.
* **Source.Answered** — what is reported of a document; **Document.open_of_answered** — that
  is all its feed depends on.
* **Dispatcher.drive_renamed** — other URIs make no difference to a drive.
-/

namespace MarkupRouting

/-! ### Tables -/

namespace Table

variable {α : Type}

/-- The table has one entry for each of the names, at the place where the name comes first, with the
value with which it comes last. -/
structure Gathers (t : Table α) (pairs : List (String × α)) : Prop where
  /-- The names in the order in which they come first. -/
  keys_eq : t.keys = (pairs.map Prod.fst).eraseDups
  /-- The values with which they come last. -/
  get?_eq : ∀ name, t.get? name = ((pairs.filter (·.1 == name)).getLast?).map Prod.snd

/-- Of pairs that make a table the last one is put in last. -/
theorem ofPairs_concat (pairs : List (String × α)) (p : String × α) :
    ofPairs (pairs ++ [p]) = put p.1 p.2 (ofPairs pairs) := by
  rw [ofPairs, update, List.foldl_append]
  rfl

/-- **Of several entries with one name the first place and the last value count.** -/
theorem gathers_ofPairs (pairs : List (String × α)) : (ofPairs pairs).Gathers pairs := by
  induction pairs using List.reverseRecOn with
  | nil => exact ⟨rfl, fun _ => rfl⟩
  | append_singleton pairs p ih =>
      rw [ofPairs_concat]
      refine ⟨?_, fun name => ?_⟩
      · rw [keys_put, ih.keys_eq, List.map_append, List.map_singleton, eraseDups_concat]
        simp only [List.mem_eraseDups]
      · rw [List.filter_append]
        by_cases hname : name = p.1
        · subst hname
          have hlast : [p].filter (·.1 == p.1) = [p] :=
            List.filter_cons_of_pos (beq_self_eq_true p.1)
          rw [get?_put_self, hlast, List.getLast?_concat]
          rfl
        · have hnone : [p].filter (·.1 == name) = [] :=
            List.filter_cons_of_neg (by simpa using Ne.symm hname)
          rw [get?_put_of_ne hname, ih.get?_eq, hnone, List.append_nil]

end Table

/-! ### Names -/

namespace Markup

/-- A name with the namespace it is in, before the two are put into one text. Documents tell them
apart, the tokenizer does not. -/
structure ExpandedName where
  /-- The URI of the namespace, if it is in one. -/
  uri : Option String
  /-- The name inside it. -/
  base : String
  deriving DecidableEq

namespace ExpandedName

/-- The name as a tokenizer reports it: behind the URI of its namespace in braces. -/
def text (n : ExpandedName) : String :=
  match n.uri with
  | none => n.base
  | some uri => .ofList ('\x7b' :: (uri.toList ++ '\x7d' :: n.base.toList))

/-- The name is not taken for one in a namespace if it is in none: it does not begin with a brace.
No name of a document does. -/
def Proper (n : ExpandedName) : Prop := n.uri = none → n.base.toList.head? ≠ some '\x7b'

/-- The name in the namespace that has another URI. -/
def rename (f : String → String) (n : ExpandedName) : ExpandedName :=
  { n with uri := n.uri.map f }

/-- The URI of the namespace has no closing brace in it, so that the first closing brace of the
whole name is the one behind the URI (`local_name`). -/
def Plain (n : ExpandedName) : Prop := ∀ uri ∈ n.uri, '\x7d' ∉ uri.toList

/-- Whether a name is proper can be decided. -/
instance (n : ExpandedName) : Decidable n.Proper := inferInstanceAs (Decidable (_ → _))

/-- Whether a name has no brace in its namespace can be decided. -/
instance (n : ExpandedName) : Decidable n.Plain :=
  inferInstanceAs (Decidable (∀ uri ∈ n.uri, '\x7d' ∉ uri.toList))

/-- What of a URI is taken for a part of the name: what stands behind the first closing brace in it,
with the brace behind the URI. -/
def leaked (uri : String) : List Char :=
  match uri.toList.dropWhile (· != '\x7d') with
  | [] => []
  | _ :: rest => rest ++ ['\x7d']

/-- The name as it is delivered where names lose their namespaces. -/
def shown (n : ExpandedName) : String :=
  match n.uri with
  | none => n.base
  | some uri => .ofList (leaked uri ++ n.base.toList)

/-- Nothing of a namespace gets into names exactly where no brace stands in it. -/
theorem leaked_eq_nil_iff {uri : String} : leaked uri = [] ↔ '\x7d' ∉ uri.toList := by
  have hdrop : leaked uri = [] ↔ uri.toList.dropWhile (· != '\x7d') = [] := by
    unfold leaked
    cases uri.toList.dropWhile (· != '\x7d') with
    | nil => exact iff_of_true rfl rfl
    | cons c rest => exact iff_of_false (by simp) (by simp)
  rw [hdrop, List.dropWhile_eq_nil_iff]
  simp only [bne_iff_ne]
  exact List.forall_mem_ne'

/-- **A name is delivered as its local part exactly where there is no closing brace in the URI of
its namespace.** -/
theorem shown_eq_base_iff (n : ExpandedName) : n.shown = n.base ↔ n.Plain := by
  obtain ⟨uri, base⟩ := n
  cases uri with
  | none => exact iff_of_true rfl nofun
  | some uri =>
      have hplain : Plain ⟨some uri, base⟩ ↔ '\x7d' ∉ uri.toList := by
        simp [Plain]
      rw [hplain, ← leaked_eq_nil_iff, shown]
      dsimp only
      rw [← String.toList_inj, String.toList_ofList]
      exact List.append_left_eq_self

/-- Names whose URIs have no closing brace in them are delivered alike under any such URIs. -/
theorem shown_rename {n : ExpandedName} {f : String → String} (h : n.Plain)
    (hrename : (n.rename f).Plain) : (n.rename f).shown = n.shown := by
  rw [(shown_eq_base_iff n).mpr h, (shown_eq_base_iff (n.rename f)).mpr hrename]
  rfl

/-- What stands from the first closing brace on. -/
theorem dropWhile_closing (uri : String) (base : List Char) :
    ∃ c, (uri.toList ++ '\x7d' :: base).dropWhile (· != '\x7d') = c :: (leaked uri ++ base) := by
  unfold leaked
  rw [List.dropWhile_append]
  cases uri.toList.dropWhile (· != '\x7d') with
  | nil => exact ⟨'\x7d', rfl⟩
  | cons c rest =>
      refine ⟨c, ?_⟩
      rw [List.append_assoc]
      rfl

/-- What a name loses is what stands up to the first closing brace. -/
theorem deliveredName_text {n : ExpandedName} (h : n.Proper) :
    Document.deliveredName true n.text = .ok n.shown := by
  suffices hlocal : Document.localName? n.text = some n.shown by
    rw [Document.deliveredName, if_pos rfl, hlocal]
  obtain ⟨uri, base⟩ := n
  cases uri with
  | none =>
      unfold Document.localName? text shown
      split
      next rest heq => exact absurd (by rw [heq]; rfl) (h rfl)
      · rfl
  | some uri =>
      have hread : Document.localName? (text ⟨some uri, base⟩) =
          match (uri.toList ++ '\x7d' :: base.toList).dropWhile (· != '\x7d') with
          | [] => none
          | _ :: rest => some (.ofList rest) := by
        unfold Document.localName? text
        rw [String.toList_ofList]
        rfl
      obtain ⟨c, hrest⟩ := dropWhile_closing uri base.toList
      rw [hread, hrest]
      rfl

/-- Attributes lose their namespaces one by one. -/
theorem deliveredAttributes_text {attributes : List (ExpandedName × String)}
    (h : ∀ a ∈ attributes, a.1.Proper) :
    Document.deliveredAttributes true (attributes.map fun a => (a.1.text, a.2)) =
      .ok (Table.ofPairs (attributes.map fun a => (a.1.shown, a.2))) := by
  suffices hall : (attributes.map fun a => (a.1.text, a.2)).mapM
      (Document.deliveredAttribute true) = .ok (attributes.map fun a => (a.1.shown, a.2)) by
    rw [Document.deliveredAttributes, hall]
    rfl
  induction attributes with
  | nil => rfl
  | cons a rest ih =>
      have hname := deliveredName_text (h a List.mem_cons_self)
      rw [List.map_cons, List.mapM_cons, ih fun x hx => h x (List.mem_cons_of_mem a hx),
        Document.deliveredAttribute, hname]
      rfl

end ExpandedName

/-! ### Reports -/

/-- What a tokenizer reports, with the namespaces of names apart. -/
inductive ExpandedMark where
  /-- An element begins. -/
  | start (name : ExpandedName) (attributes : List (ExpandedName × String))
  /-- An element ends. -/
  | finish (name : ExpandedName)
  /-- A text, or a part of one. -/
  | data (s : String)

namespace ExpandedMark

/-- The names in a report. -/
def names : ExpandedMark → List ExpandedName
  | start name attributes => name :: attributes.map Prod.fst
  | finish name => [name]
  | data _ => []

/-- The report as a tokenizer makes it. -/
def mark : ExpandedMark → Mark
  | start name attributes => .start name.text (attributes.map fun a => (a.1.text, a.2))
  | finish name => .finish name.text
  | data s => .data s

/-- The report with names as they are delivered. -/
def bare : ExpandedMark → Mark
  | start name attributes => .start name.shown (attributes.map fun a => (a.1.shown, a.2))
  | finish name => .finish name.shown
  | data s => .data s

/-- The report with other URIs. -/
def rename (f : String → String) : ExpandedMark → ExpandedMark
  | start name attributes => start (name.rename f) (attributes.map fun a => (a.1.rename f, a.2))
  | finish name => finish (name.rename f)
  | data s => data s

/-- None of the names is taken for one in a namespace if it is in none. -/
def Proper (m : ExpandedMark) : Prop := ∀ n ∈ m.names, n.Proper

/-- No URI has a closing brace in it. -/
def Plain (m : ExpandedMark) : Prop := ∀ n ∈ m.names, n.Plain

/-- Whether a report is proper can be decided. -/
instance (m : ExpandedMark) : Decidable m.Proper :=
  inferInstanceAs (Decidable (∀ n ∈ m.names, n.Proper))

/-- Whether a report has no brace in its namespaces can be decided. -/
instance (m : ExpandedMark) : Decidable m.Plain :=
  inferInstanceAs (Decidable (∀ n ∈ m.names, n.Plain))

/-- What comes of a report where so many elements are open in front of it. An element is delivered
under the name that is shown, which must not be empty, and so are its attributes, of which those
with one name are put together. Where none is open none ends. -/
def Delivers (depth : Nat) (r : Except Fault (Event × Nat)) : ExpandedMark → Prop
  | start name attributes =>
    if name.shown = "" then r = .error (.event .noName)
    else ∃ table : Table String, table.Gathers (attributes.map fun a => (a.1.shown, a.2)) ∧
      r = .ok (.opened name.shown (table.map fun (key, s) => (key, .text s)) (depth + 1), depth + 1)
  | finish name =>
    r = if name.shown = "" then .error (.event .noName)
      else if depth = 0 then .error (.event .lowDepth)
      else .ok (.closed name.shown depth, depth - 1)
  | data s => r = .ok (.text s depth, depth)

variable {m : ExpandedMark} {f : String → String}

/-- The names of a renamed report are the renamed names. -/
theorem names_rename (f : String → String) (m : ExpandedMark) :
    (m.rename f).names = m.names.map (·.rename f) := by
  cases m with
  | start name attributes =>
      simp only [rename, names, List.map_cons, List.map_map, Function.comp_def]
  | finish name => rfl
  | data s => rfl

/-- Other URIs do not make a name one that is in no namespace. -/
theorem Proper.rename (h : m.Proper) : (m.rename f).Proper := by
  intro n hn
  rw [names_rename] at hn
  obtain ⟨n, hmem, rfl⟩ := List.mem_map.mp hn
  exact fun hnone => h n hmem (Option.map_eq_none_iff.mp hnone)

/-- Names are delivered alike under any URIs that have no closing brace in them. -/
theorem bare_rename (h : m.Plain) (hrename : (m.rename f).Plain) : (m.rename f).bare = m.bare := by
  have hshown : ∀ n ∈ m.names, (n.rename f).shown = n.shown := by
    intro n hn
    refine ExpandedName.shown_rename (h n hn) (hrename _ ?_)
    rw [names_rename]
    exact List.mem_map_of_mem hn
  cases m with
  | start name attributes =>
      have hattributes : ∀ a ∈ attributes, ((a.1.rename f).shown, a.2) = (a.1.shown, a.2) :=
        fun a ha => by
          rw [hshown a.1 (List.mem_cons_of_mem name (List.mem_map_of_mem ha))]
      rw [ExpandedMark.rename, bare, bare, hshown name List.mem_cons_self, List.map_map]
      exact congrArg (Mark.start name.shown) (List.map_congr_left hattributes)
  | finish name => exact congrArg Mark.finish (hshown name List.mem_cons_self)
  | data s => rfl

/-- The event for a report is the one for names as they are delivered. -/
theorem eventOf_mark (h : m.Proper) (depth : Nat) :
    Document.eventOf true depth m.mark = Document.eventOf false depth m.bare := by
  cases m with
  | start name attributes =>
      have hname := ExpandedName.deliveredName_text (h name List.mem_cons_self)
      have hattributes := ExpandedName.deliveredAttributes_text fun a ha =>
        h a.1 (List.mem_cons_of_mem name (List.mem_map_of_mem ha))
      have hbare : Document.deliveredAttributes false (attributes.map fun a => (a.1.shown, a.2)) =
          .ok (Table.ofPairs (attributes.map fun a => (a.1.shown, a.2))) := by
        have hall : ∀ pairs : List (String × String),
            pairs.mapM (Document.deliveredAttribute false) = .ok pairs := by
          intro pairs
          induction pairs with
          | nil => rfl
          | cons p rest ih =>
              rw [List.mapM_cons, ih]
              rfl
        rw [Document.deliveredAttributes, hall]
        rfl
      rw [mark, bare, Document.eventOf, Document.eventOf, hname, hattributes, hbare]
      rfl
  | finish name =>
      rw [mark, bare, Document.eventOf, Document.eventOf,
        ExpandedName.deliveredName_text (h name List.mem_cons_self)]
      rfl
  | data s => rfl

/-- **What comes of a report**, whatever its URIs are. -/
theorem delivers_eventOf (h : m.Proper) (depth : Nat) :
    m.Delivers depth (Document.eventOf true depth m.mark) := by
  cases m with
  | start name attributes =>
      have hname := ExpandedName.deliveredName_text (h name List.mem_cons_self)
      have hattributes := ExpandedName.deliveredAttributes_text fun a ha =>
        h a.1 (List.mem_cons_of_mem name (List.mem_map_of_mem ha))
      change if name.shown = "" then _ else _
      rw [mark, Document.eventOf, hname, hattributes]
      split_ifs with hempty
      · rw [hempty]
        rfl
      · refine ⟨_, Table.gathers_ofPairs _, ?_⟩
        exact congrArg (fun e => (Document.checked e).bind fun e => .ok (e, depth + 1))
          (Document.opened?_text hempty _ depth)
  | finish name =>
      change _ = if name.shown = "" then _ else _
      rw [mark, Document.eventOf, ExpandedName.deliveredName_text (h name List.mem_cons_self)]
      split_ifs with hempty hdepth
      · rw [hempty]
        rfl
      · have hclosed : Event.closed? (.text name.shown) (.int (0 : Nat)) = .error .lowDepth := by
          rw [Event.closed?, Document.readName_text hempty]
          rfl
        rw [hdepth]
        exact congrArg (fun e => (Document.checked e).bind fun e => .ok (e, 0 - 1)) hclosed
      · obtain ⟨around, rfl⟩ := Nat.exists_eq_succ_of_ne_zero hdepth
        exact congrArg (fun e => (Document.checked e).bind fun e => .ok (e, around))
          (Document.closed?_text hempty around)
  | data s => rfl

/-- The events for reports are the ones for names as they are delivered. -/
theorem eventsOf_mark {marks : List ExpandedMark} (h : ∀ m ∈ marks, m.Proper) (depth : Nat)
    (sofar : List Event) :
    Document.eventsOf true depth sofar (marks.map mark) =
      Document.eventsOf false depth sofar (marks.map bare) := by
  induction marks generalizing depth sofar with
  | nil => rfl
  | cons m rest ih =>
      have hrest := ih fun x hx => h x (List.mem_cons_of_mem m hx)
      rw [List.map_cons, List.map_cons, Document.eventsOf, Document.eventsOf,
        eventOf_mark (h m List.mem_cons_self)]
      split
      · exact hrest _ _
      · rfl

/-- So is what they spell. -/
theorem spelled_mark {marks : List ExpandedMark} (h : ∀ m ∈ marks, m.Proper) (depth : Nat) :
    Document.spelled true depth (marks.map mark) =
      Document.spelled false depth (marks.map bare) := by
  induction marks generalizing depth with
  | nil => rfl
  | cons m rest ih =>
      have hrest := ih fun x hx => h x (List.mem_cons_of_mem m hx)
      rw [List.map_cons, List.map_cons, Document.spelled_cons, Document.spelled_cons,
        eventOf_mark (h m List.mem_cons_self)]
      simp only [hrest]

/-- Reports with other URIs are delivered alike, if neither have a closing brace in them. -/
theorem map_bare_rename {marks : List ExpandedMark} (h : ∀ m ∈ marks, m.Plain)
    (hrename : ∀ m ∈ marks, (m.rename f).Plain) :
    (marks.map (·.rename f)).map bare = marks.map bare := by
  rw [List.map_map]
  exact List.map_congr_left fun m hm => bare_rename (h m hm) (hrename m hm)

end ExpandedMark

end Markup

open Markup

/-! ### Documents -/

/-- What is reported of a source that is read as the options say: these reports, but for the pieces
in which texts are reported. It ends in the given way. -/
structure Source.Answered (t : Tokenizer) (o : Document.Options) (s : Source) (marks : List Mark)
    (last : Feed) : Prop where
  /-- So much of it can be asked for at a time. -/
  size : s.Admits o.chunkSize
  /-- The tokenizer answers its pieces so. -/
  answers : ∃ cs, Document.chunks o.chunkSize s = .ok cs ∧
    let a := t.answers { isUtf8 := Document.isText s, resolve := o.resolve, huge := o.huge } cs
    Mark.joined a.marks = Mark.joined marks ∧ a.last = last

namespace Document

variable {strip : Bool}

/-- Reports are spelled if they are with others behind them. -/
theorem spelled_of_append {depth : Nat} {marks later : List Mark} {whole : Feed}
    (h : spelled strip depth (marks ++ later) = .ok whole) :
    ∃ front, spelled strip depth marks = .ok front := by
  induction marks generalizing depth whole with
  | nil => exact ⟨.done, rfl⟩
  | cons m rest ih =>
      obtain ⟨e, depth', tail, he, htail, rfl⟩ := spelled_cons_ok h
      obtain ⟨front, hfront⟩ := ih htail
      refine ⟨Feed.lead (.event e) front, ?_⟩
      rw [spelled_cons, he, Except.bind, hfront]
      rfl

/-- The feed of a source is what is reported of it, and ends as that does. -/
theorem open_of_answered {t : Tokenizer} {o : Options} {s : Source} {marks : List Mark}
    {last whole : Feed} (h : s.Answered t o marks last)
    (hspelled : spelled o.strip 0 marks = .ok whole) :
    ∃ feed, open? t o s = .ok feed ∧ feed.joined = whole.endedBy last := by
  obtain ⟨hsize, cs, hchunks, hmarks, rfl⟩ := h
  rw [← spelled_joined, ← hmarks, spelled_joined] at hspelled
  refine ⟨feedOf t o (isText s) cs, ?_, joined_feedOf hspelled⟩
  rw [open?, atMostZero_of_admits hsize, feed, hchunks]

end Document

namespace Dispatcher

variable {H σ : Type}

/-- A source of which something is reported is a document. -/
theorem openSource_of_answered {d : Dispatcher H} {t : Tokenizer} {correlation : Value} {s : Source}
    {marks : List Mark} {last whole : Feed}
    (h : s.Answered t (.ofSettings d.settings correlation) marks last)
    (hspelled : Document.spelled d.settings.stripNamespaces.isTruthy 0 marks = .ok whole) :
    ∃ feed, d.openSource t correlation s = .ok (feed, true) ∧ feed.joined = whole.endedBy last := by
  obtain ⟨feed, hopen, hjoined⟩ := Document.open_of_answered h hspelled
  have hdocument : d.openSource t correlation s =
      (Document.open? t (.ofSettings d.settings correlation) s).map (·, true) := by
    obtain ⟨-, cs, hchunks, -⟩ := h
    cases s with
    | items typeName feed closable => cases hchunks
    | other v => cases hchunks
    | text s => rfl
    | bytes bs => rfl
    | file name contents => rfl
    | byteStream bs => rfl
    | textStream s => rfl
  exact ⟨feed, by rw [hdocument, hopen]; rfl, hjoined⟩

/-- **Where names lose their namespaces no URI without a closing brace makes a difference**
(`local_name`). Of every report comes an event under the names that are shown; of several attributes
with one such name the first place and the last value count. A name is shown as its local part
exactly where there is no closing brace in the URI of its namespace. So reports that differ in such
URIs only come to the same events, and documents of which they are made, in whatever pieces, to the
same calls: those that are well-formed, and those of which as much is reported before they are
refused. -/
theorem drive_renamed {d : Dispatcher H} (hidle : d.driving = false)
    (hstrip : d.settings.stripNamespaces.isTruthy = true) {marks : List ExpandedMark}
    (hproper : ∀ m ∈ marks, m.Proper) :
    (∀ m ∈ marks, ∀ depth, m.Delivers depth (Document.eventOf true depth m.mark)) ∧
      (∀ m ∈ marks, ∀ n ∈ m.names, n.shown = n.base ↔ n.Plain) ∧
      ∀ f : String → String, (∀ m ∈ marks, m.Plain) → (∀ m ∈ marks, (m.rename f).Plain) →
        let reported := marks.map ExpandedMark.mark
        let renamed := (marks.map (·.rename f)).map ExpandedMark.mark
        (∀ depth sofar, Document.eventsOf true depth sofar renamed =
          Document.eventsOf true depth sofar reported) ∧
        ∀ (b : Behavior H σ) (t : Tokenizer) (around : Surroundings) (source source' : Source)
          (world : σ) (later : List Mark) (last : Feed), Mark.Nests [] (reported ++ later) →
          source.Answered t (.ofSettings d.settings (d.identity around)) reported last →
          source'.Answered t (.ofSettings d.settings (d.identity around)) renamed last →
          (d.drive b t around source world).1.Alike Value.sampled
            (d.drive b t around source' world).1 := by
  refine ⟨fun m hm depth => ExpandedMark.delivers_eventOf (hproper m hm) depth,
    fun _ _ n _ => n.shown_eq_base_iff, fun f hplain hrename => ?_⟩
  have hrenamed : ∀ m ∈ marks.map (·.rename f), m.Proper := by
    intro m hm
    obtain ⟨m, hmem, rfl⟩ := List.mem_map.mp hm
    exact (hproper m hmem).rename
  have hbare := ExpandedMark.map_bare_rename hplain hrename
  refine ⟨fun depth sofar => ?_, ?_⟩
  · rw [ExpandedMark.eventsOf_mark hrenamed, ExpandedMark.eventsOf_mark hproper, hbare]
  · intro b t around source source' world later last hnests hsource hsource'
    obtain ⟨whole, hwhole⟩ := Document.spelled_of_nests true hnests
    obtain ⟨front, hfront⟩ := Document.spelled_of_append hwhole
    have hfront' : Document.spelled true 0 ((marks.map (·.rename f)).map ExpandedMark.mark) =
        .ok front := by
      rw [ExpandedMark.spelled_mark hrenamed, hbare, ← ExpandedMark.spelled_mark hproper]
      exact hfront
    obtain ⟨feed, hopen, hjoined⟩ := openSource_of_answered hsource (hstrip.symm ▸ hfront)
    obtain ⟨feed', hopen', hjoined'⟩ := openSource_of_answered hsource' (hstrip.symm ▸ hfront')
    have hsame : d.engaged = d.engaged.reading d.settings.chunkSize := rfl
    exact (alike_drive (R := fun _ => True) hidle hidle hsame hopen hopen'
      (hjoined.trans hjoined'.symm) (fun _ _ _ _ => rfl) (fun _ => trivial) (fun _ => trivial) b
      around.elapsed world).2

/-- A document with names in a namespace and an attribute with one local part inside and outside
it. -/
def spaced (uri : String) : String :=
  "<r xmlns=\"" ++ uri ++ "\" xmlns:p=\"" ++ uri ++ "\" p:k=\"1\" k=\"2\">one</r>"

/-- What is reported of it. -/
def spacedMarks (uri : String) : List ExpandedMark :=
  [.start ⟨some uri, "r"⟩ [(⟨some uri, "k"⟩, "1"), (⟨none, "k"⟩, "2")], .data "one",
    .finish ⟨some uri, "r"⟩]

/-- Two URIs without a closing brace. -/
theorem drive_renamed_spaced :
    let o : Document.Options := .ofSettings attentive.settings (attentive.identity calm)
    let reported := (spacedMarks "u").map ExpandedMark.mark
    let renamed := (spacedMarks "urn:v").map ExpandedMark.mark
    attentive.driving = false ∧ attentive.settings.stripNamespaces.isTruthy = true ∧
      (∀ m ∈ spacedMarks "u", m.Proper ∧ m.Plain ∧ (m.rename fun _ => "urn:v").Plain) ∧
      Mark.Nests [] reported ∧ Source.Answered standard o (.text (spaced "u")) reported .done ∧
      Source.Answered standard o (.text (spaced "urn:v")) renamed .done ∧
      Document.eventsOf true 0 [] reported =
        .ok ([.opened "r" [("k", .text "2")] 1, .text "one" 1, .closed "r" 1], 0) ∧
      Document.eventsOf true 0 [] renamed = Document.eventsOf true 0 [] reported ∧
      (attentive.drive keeping standard calm (.text (spaced "u")) []).1.Alike Value.sampled
        (attentive.drive keeping standard calm (.text (spaced "urn:v")) []).1 := by
  intro o reported renamed
  have hanswered : ∀ uri, (spaced uri).toList ≠ [] → (spaced uri).toList.length ≤ 65536 →
      standard.reports { isUtf8 := true, resolve := false, huge := false }
        [Document.encode (spaced uri).toList] = some ((spacedMarks uri).map ExpandedMark.mark) →
      Source.Answered standard o (.text (spaced uri)) ((spacedMarks uri).map ExpandedMark.mark)
        .done := by
    intro uri hne hlength hreports
    have hsize : Source.Admits (.text (spaced uri)) o.chunkSize := ⟨65536, rfl, by decide, rfl⟩
    obtain ⟨hmarks, hlast⟩ := Tokenizer.answers_of_reports (List.cons_ne_nil _ _) hreports
    exact ⟨hsize, _, Document.chunks_of_length_le hne hlength, congrArg Mark.joined hmarks, hlast⟩
  have hsource := hanswered "u" (by decide +kernel) (by decide +kernel) (by decide +kernel)
  have hsource' := hanswered "urn:v" (by decide +kernel) (by decide +kernel) (by decide +kernel)
  have hproper : ∀ m ∈ spacedMarks "u", m.Proper := by decide
  have hplain : ∀ m ∈ spacedMarks "u", m.Plain := by decide
  have hplain' : ∀ m ∈ spacedMarks "u", (m.rename fun _ => "urn:v").Plain := by decide
  have hname : Mark.IsName "\x7bu\x7dr" := ⟨"r", by decide, by decide⟩
  have hattributes : ∀ a ∈ [("\x7bu\x7dk", "1"), ("k", "2")], Mark.IsName a.1 := by
    intro a ha
    rcases List.mem_pair.mp ha with rfl | rfl
    · exact ⟨"k", by decide, by decide⟩
    · exact ⟨"k", by decide, by decide⟩
  have hnests : Mark.Nests [] (reported ++ []) := ⟨hname, hattributes, hname, [], rfl, rfl⟩
  obtain ⟨-, -, hall⟩ := drive_renamed (d := attentive) (σ := List String) rfl rfl hproper
  obtain ⟨hevents, hdrive⟩ := hall (fun _ => "urn:v") hplain hplain'
  exact ⟨rfl, rfl, fun m hm => ⟨hproper m hm, hplain m hm, hplain' m hm⟩, hnests, hsource, hsource',
    by rfl, hevents 0 [], hdrive keeping standard calm _ _ [] [] .done hnests hsource hsource'⟩

end Dispatcher

/-- Another URI for each: the one that is given, in braces. -/
def braced (uri : String) : String := "\x7b" ++ uri ++ "\x7d"

/-- In braces different namespaces stay different. -/
theorem braced_injective : Function.Injective braced := by
  intro uri uri' h
  have hchars := congrArg String.toList h
  rw [braced, braced, String.toList_append, String.toList_append, String.toList_append,
    String.toList_append, List.append_left_inj, List.append_right_inj] at hchars
  exact String.toList_inj.mp hchars

/-- What is reported of an element in a namespace. -/
def rootMarks : List ExpandedMark := [.start ⟨some "u", "r"⟩ [], .finish ⟨some "u", "r"⟩]

/-- With a closing brace in the URI it does make a difference: the brace behind such a URI becomes a
part of the name. -/
theorem not_renamed_of_brace :
    let o : Tokenizer.Options := { isUtf8 := true, resolve := false, huge := false }
    let reported := rootMarks.map ExpandedMark.mark
    let renamed := (rootMarks.map (·.rename braced)).map ExpandedMark.mark
    Function.Injective braced ∧ (∀ m ∈ rootMarks, m.Proper) ∧
      standard.reports o [Document.encode "<r xmlns=\"u\"/>".toList] = some reported ∧
      standard.reports o [Document.encode "<r xmlns=\"\x7bu\x7d\"/>".toList] = some renamed ∧
      Document.eventsOf true 0 [] reported = .ok ([.opened "r" [] 1, .closed "r" 1], 0) ∧
      Document.eventsOf true 0 [] renamed =
        .ok ([.opened "\x7dr" [] 1, .closed "\x7dr" 1], 0) ∧
      Document.eventsOf true 0 [] renamed ≠ Document.eventsOf true 0 [] reported := by
  intro o reported renamed
  have hevents : Document.eventsOf true 0 [] reported =
      .ok ([.opened "r" [] 1, .closed "r" 1], 0) := rfl
  have hevents' : Document.eventsOf true 0 [] renamed =
      .ok ([.opened "\x7dr" [] 1, .closed "\x7dr" 1], 0) := rfl
  refine ⟨braced_injective, by decide, by decide +kernel, by decide +kernel, hevents, hevents',
    fun h => ?_⟩
  rw [hevents, hevents'] at h
  simp at h

end MarkupRouting
