import MarkupRouting.Proofs.Markup.Pieces
import MarkupRouting.Proofs.Routing.Texts

/-!
# Reports of documents

A tokenizer that is incremental for a document reports the same of it in whatever pieces it comes,
once adjacent texts are joined. Then the feed of the document is the same as well, once its texts
are joined.

* **Tokenizer.reports** — all that is reported of a document in pieces.
* **Mark.joined**, **Mark.Nests** — reports with adjacent texts joined; reports in which elements
  end in reverse order.
* **Tokenizer.Reads** — the tokenizer is incremental for a document.
* **Document.spelled** — the feed of what is reported, with texts joined.
* **Document.joined_feed** — however a document is given and read, its feed is that one.
-/

namespace MarkupRouting

/-! ### Reports -/

namespace Markup

/-- All that is reported of the remaining pieces of a document and of its end; nothing where one of
them is refused. -/
def Tokenizer.reportsFrom (t : Tokenizer) (state : t.State) : List (List UInt8) → Option (List Mark)
  | [] => t.finish state
  | piece :: rest => do
    let (marks, state) ← t.feed state piece
    let later ← t.reportsFrom state rest
    return marks ++ later

/-- All that is reported of a document in pieces, if none of them is refused: what `feed` reports of
each and `close` of the end. -/
def Tokenizer.reports (t : Tokenizer) (o : Tokenizer.Options) (pieces : List (List UInt8)) :
    Option (List Mark) := t.reportsFrom (t.start o) pieces

namespace Mark

/-- A report in front of others in which texts are joined. -/
def lead : Mark → List Mark → List Mark
  | .data s, rest =>
    if s = "" then rest
    else
      match rest with
      | .data t :: rest => .data (s ++ t) :: rest
      | rest => .data s :: rest
  | m, rest => m :: rest

/-- Reports with adjacent texts joined and empty ones left out. -/
def joined (marks : List Mark) : List Mark := marks.foldr lead []

/-- The name has something behind the namespace in front of it. -/
def IsName (name : String) : Prop := ∃ base, Document.localName? name = some base ∧ base ≠ ""

/-- Elements end in the reverse order in which they began, and everything has a name; `opened` are
the names of the elements that are open in front of the reports, the innermost one first. -/
def Nests : List String → List Mark → Prop
  | opened, [] => opened = []
  | opened, .start name attributes :: rest =>
    IsName name ∧ (∀ a ∈ attributes, IsName a.1) ∧ Nests (name :: opened) rest
  | opened, .finish name :: rest =>
    IsName name ∧ ∃ around, opened = name :: around ∧ Nests around rest
  | opened, .data _ :: rest => Nests opened rest

end Mark

/-- The tokenizer is incremental for a document of the given bytes, of which it reports `marks`: it
reports them in whatever pieces the bytes come, but for the pieces in which texts are reported, and
whether or not it is told that the bytes are UTF-8. The document is well-formed. -/
structure Tokenizer.Reads (t : Tokenizer) (resolve huge : Bool) (bytes : List UInt8)
    (marks : List Mark) : Prop where
  /-- There are bytes. -/
  nonempty : bytes ≠ []
  /-- Of all their pieces the same is reported. -/
  reports : ∀ isUtf8 pieces, [] ∉ pieces → pieces.flatten = bytes →
    (t.reports { isUtf8, resolve, huge } pieces).map Mark.joined = some marks
  /-- It is reported of elements inside each other. -/
  nests : Mark.Nests [] marks

/-- All ways to cut a list into pieces, none of which is empty. -/
def cuts {α : Type} : List α → List (List (List α))
  | [] => [[]]
  | x :: rest => (cuts rest).flatMap fun
    | [] => [[[x]]]
    | piece :: later => [[x] :: piece :: later, (x :: piece) :: later]

/-- Every way to cut a list into pieces that are not empty is among those listed. -/
theorem mem_cuts {α : Type} {pieces : List (List α)} {xs : List α} (hpieces : [] ∉ pieces)
    (hflatten : pieces.flatten = xs) : pieces ∈ cuts xs := by
  induction xs generalizing pieces with
  | nil =>
      cases pieces with
      | nil => exact List.mem_singleton_self []
      | cons piece later =>
          rw [List.flatten_cons, List.append_eq_nil_iff] at hflatten
          exact absurd (hflatten.1 ▸ List.mem_cons_self) hpieces
  | cons x rest ih =>
      rw [cuts, List.mem_flatMap]
      cases pieces with
      | nil => cases hflatten
      | cons piece later =>
          rw [List.mem_cons, not_or] at hpieces
          cases piece with
          | nil => exact absurd rfl hpieces.1
          | cons y piece =>
              rw [List.flatten_cons, List.cons_append] at hflatten
              obtain ⟨rfl, hrest⟩ := List.cons.inj hflatten
              cases piece with
              | nil =>
                  -- the first element is a piece of its own
                  refine ⟨later, ih hpieces.2 hrest, ?_⟩
                  cases later with
                  | nil => exact List.mem_singleton_self _
                  | cons piece later => exact List.mem_cons_self
              | cons z piece =>
                  refine ⟨(z :: piece) :: later, ih ?_ hrest, List.mem_cons_of_mem _ ?_⟩
                  · rw [List.mem_cons, not_or]
                    exact ⟨(List.cons_ne_nil z piece).symm, hpieces.2⟩
                  · exact List.mem_singleton_self _

/-- That a tokenizer is incremental for a short document can be seen from all its pieces. -/
theorem Tokenizer.reads_of_cuts {t : Tokenizer} {resolve huge : Bool} {bytes : List UInt8}
    {marks : List Mark} (hbytes : bytes ≠ [])
    (hcuts : ∀ isUtf8, ∀ pieces ∈ cuts bytes,
      (t.reports { isUtf8, resolve, huge } pieces).map Mark.joined = some marks)
    (hnests : Mark.Nests [] marks) : t.Reads resolve huge bytes marks :=
  ⟨hbytes, fun isUtf8 pieces hpieces hflatten =>
    hcuts isUtf8 pieces (mem_cuts hpieces hflatten), hnests⟩

end Markup

open Markup

/-! ### Feeds with texts joined -/

namespace Feed

/-- An empty text in front changes nothing. -/
theorem lead_empty (depth : Nat) (feed : Feed) : lead (.event (.text "" depth)) feed = feed := by
  unfold lead
  exact if_pos rfl

/-- A text is joined to the one that the feed begins with. -/
theorem lead_text_item {s : String} (hs : s ≠ "") (depth : Nat) (t : String) (depth' : Nat)
    (rest : Feed) : lead (.event (.text s depth)) (item (.event (.text t depth')) rest) =
      item (.event (.text (s ++ t) 0)) rest := if_neg hs

/-- A text stands in front of a feed that begins with no text. -/
theorem lead_text_other {s : String} (hs : s ≠ "") (depth : Nat) {feed : Feed}
    (hfeed : ∀ t depth rest, feed ≠ item (.event (.text t depth)) rest) :
    lead (.event (.text s depth)) feed = item (.event (.text s 0)) feed := by
  unfold lead
  dsimp only
  rw [if_neg hs]
  split
  next t depth rest => exact absurd rfl (hfeed t depth rest)
  · rfl

/-- Two texts in front of a feed are as good as both of them together. -/
theorem lead_text_text (s t : String) (depth depth' depth'' : Nat) (feed : Feed) :
    lead (.event (.text s depth)) (lead (.event (.text t depth')) feed) =
      lead (.event (.text (s ++ t) depth'')) feed := by
  by_cases ht : t = ""
  · rw [ht, lead_empty, String.append_empty]
    rfl
  by_cases hs : s = ""
  · rw [hs, lead_empty, String.empty_append]
    rfl
  have hboth : s ++ t ≠ "" := fun h => ht (String.append_eq_empty_iff.mp h).2
  by_cases hfeed : ∃ u depth rest, feed = item (.event (.text u depth)) rest
  · obtain ⟨u, _, rest, rfl⟩ := hfeed
    rw [lead_text_item ht, lead_text_item hs, lead_text_item hboth, String.append_assoc]
  · have hother : ∀ u depth rest, feed ≠ item (.event (.text u depth)) rest :=
      fun u depth rest h => hfeed ⟨u, depth, rest, h⟩
    rw [lead_text_other ht depth' hother, lead_text_item hs, lead_text_other hboth depth'' hother]

/-- To join the texts of items and of what follows is to lead in the items one by one. -/
theorem joined_after (front : List Item) (rest : Feed) :
    (after front rest).joined = front.foldr lead rest.joined := by
  induction front with
  | nil => rfl
  | cons i front ih => exact congrArg (lead i) ih

/-- Where a feed ends: at its end or with a fault. Items, pieces that are read and records in front
of it are left out. -/
def last : Feed → Feed
  | done => done
  | fault f => fault f
  | item _ rest | read _ rest | note _ rest => rest.last

/-- An item in front does not change the end of a feed. -/
theorem last_lead (i : Item) (feed : Feed) : (lead i feed).last = feed.last := by
  unfold lead
  split
  · split
    · rfl
    · split
      · rfl
      · rfl
  · rfl

/-- Joining texts does not change the end of a feed. -/
theorem last_joined (feed : Feed) : feed.joined.last = feed.last := by
  induction feed with
  | done => rfl
  | fault f => rfl
  | item i rest ih => rw [joined, last_lead, ih, last]
  | read chunk rest ih => exact ih
  | note r rest ih => exact ih

/-- A feed with its texts joined is its items with their texts joined, and its end. -/
theorem joined_eq_foldr (feed : Feed) : feed.joined = feed.items.foldr lead feed.last := by
  induction feed with
  | done => rfl
  | fault f => rfl
  | item i rest ih => exact congrArg (lead i) ih
  | read chunk rest ih => exact ih
  | note r rest ih => exact ih

/-- The items of a feed that comes to its end are as good as the feed. -/
theorem joined_ofItems {feed : Feed} (h : feed.joined.last = done) :
    (ofItems feed.items).joined = feed.joined := by
  rw [last_joined] at h
  rw [ofItems, joined_after, joined, joined_eq_foldr feed, h]

end Feed

/-! ### The feed of what is reported -/

namespace Document

variable {strip : Bool}

/-- The feed of the events for reports, where so many elements are open in front of them, with texts
joined. -/
def spelled (strip : Bool) : Nat → List Mark → Except Fault Feed
  | _, [] => .ok .done
  | depth, m :: rest => do
    let (e, depth) ← eventOf strip depth m
    let feed ← spelled strip depth rest
    return Feed.lead (.event e) feed

/-- What reports spell: the event of the first one in front of those of the rest. -/
theorem spelled_cons (depth : Nat) (m : Mark) (rest : List Mark) :
    spelled strip depth (m :: rest) = (eventOf strip depth m).bind fun r =>
      (spelled strip r.2 rest).map (Feed.lead (.event r.1)) := by
  rw [spelled]
  cases eventOf strip depth m with
  | error fault => rfl
  | ok r =>
      cases spelled strip r.2 rest with
      | error fault => rfl
      | ok feed => rfl

/-- Characters spell a text, at whatever depth. -/
theorem spelled_data (depth : Nat) (s : String) (rest : List Mark) :
    spelled strip depth (.data s :: rest) =
      (spelled strip depth rest).map (Feed.lead (.event (.text s depth))) := by
  rw [spelled_cons]
  rfl

/-- Reports that are joined are spelled as they were. -/
theorem spelled_lead (depth : Nat) (m : Mark) (rest : List Mark) :
    spelled strip depth (Mark.lead m rest) = spelled strip depth (m :: rest) := by
  cases m with
  | start name attributes => rfl
  | finish name => rfl
  | data s =>
      by_cases hs : s = ""
      · subst hs
        have hempty : Feed.lead (.event (.text "" depth)) = id :=
          funext fun feed => Feed.lead_empty depth feed
        unfold Mark.lead
        dsimp only
        rw [if_pos rfl, spelled_data, hempty, Except.map_id]
        rfl
      · unfold Mark.lead
        dsimp only
        rw [if_neg hs]
        split
        next t rest =>
          rw [spelled_data, spelled_data, spelled_data]
          cases spelled strip depth rest with
          | error fault => rfl
          | ok feed =>
              exact congrArg Except.ok (Feed.lead_text_text s t depth depth depth feed).symm
        · rfl

/-- Reports are spelled as they are with their texts joined. -/
theorem spelled_joined (depth : Nat) (marks : List Mark) :
    spelled strip depth (Mark.joined marks) = spelled strip depth marks := by
  induction marks generalizing depth with
  | nil => rfl
  | cons m rest ih =>
      have hlead : Mark.joined (m :: rest) = Mark.lead m (Mark.joined rest) := rfl
      rw [hlead, spelled_lead, spelled_cons, spelled_cons]
      congr 1
      exact funext fun r => by rw [ih]

/-- What is spelled begins with the event of the first report. -/
theorem spelled_cons_ok {depth : Nat} {m : Mark} {rest : List Mark} {feed : Feed}
    (h : spelled strip depth (m :: rest) = .ok feed) :
    ∃ e depth' later, eventOf strip depth m = .ok (e, depth') ∧
      spelled strip depth' rest = .ok later ∧ feed = Feed.lead (.event e) later := by
  rw [spelled_cons] at h
  cases he : eventOf strip depth m with
  | error fault =>
      rw [he] at h
      cases h
  | ok r =>
      rw [he, Except.bind] at h
      cases hrest : spelled strip r.2 rest with
      | error fault =>
          rw [hrest] at h
          cases h
      | ok later =>
          rw [hrest] at h
          exact ⟨r.1, r.2, later, rfl, hrest, (Except.ok.inj h).symm⟩

/-- What is spelled comes to its end. -/
theorem last_spelled {depth : Nat} {marks : List Mark} {feed : Feed}
    (h : spelled strip depth marks = .ok feed) : feed.last = .done := by
  induction marks generalizing depth feed with
  | nil =>
      cases h
      rfl
  | cons m rest ih =>
      obtain ⟨e, depth', later, -, hlater, rfl⟩ := spelled_cons_ok h
      rw [Feed.last_lead, ih hlater]

/-- Reports with something behind them are spelled by their events and what is spelled behind. -/
theorem eventsOf_of_spelled {marks later : List Mark} {depth : Nat} {feed : Feed}
    (h : spelled strip depth (marks ++ later) = .ok feed) (sofar : List Event) :
    ∃ events depth' behind,
      eventsOf strip depth sofar marks = .ok (sofar.reverse ++ events, depth') ∧
      spelled strip depth' later = .ok behind ∧
      feed = (events.map .event).foldr Feed.lead behind := by
  induction marks generalizing depth feed sofar with
  | nil => exact ⟨[], depth, feed, by rw [eventsOf, List.append_nil], h, rfl⟩
  | cons m rest ih =>
      obtain ⟨e, depth', tail, he, htail, rfl⟩ := spelled_cons_ok h
      obtain ⟨events, depth'', behind, hevents, hbehind, rfl⟩ := ih htail (e :: sofar)
      refine ⟨e :: events, depth'', behind, ?_, hbehind, rfl⟩
      rw [eventsOf, he]
      dsimp only
      rw [hevents, List.reverse_cons, List.append_assoc]
      rfl

/-- What was read stands in front of the rest with texts joined. -/
theorem joined_behind (read : List (List UInt8 × List Event)) (rest : Feed) :
    (behind read rest).joined =
      read.foldl (fun feed r => (r.2.map Item.event).foldr Feed.lead feed) rest.joined := by
  induction read generalizing rest with
  | nil => rfl
  | cons r read ih =>
      have hone : (Feed.read r.1 (.afterEvents r.2 rest)).joined =
          (r.2.map Item.event).foldr Feed.lead rest.joined := Feed.joined_after _ rest
      rw [List.foldl_cons, ← hone, ← ih]
      rfl

/-- **The feed of a document is what its reports spell**, with texts joined: what a tokenizer
reports of a piece is handed out before the next piece is read, and what it reports of the end
behind them. -/
theorem joined_feedFrom {t : Tokenizer} {o : Options} {state : t.State} {depth : Nat}
    {pieces : List (List UInt8)} {marks : List Mark} {feed : Feed}
    (hreports : t.reportsFrom state pieces = some marks)
    (hspelled : spelled o.strip depth marks = .ok feed) (read : List (List UInt8 × List Event)) :
    (feedFrom t o state depth read pieces).joined =
      read.foldl (fun feed r => (r.2.map Item.event).foldr Feed.lead feed) feed := by
  induction pieces generalizing state depth marks feed read with
  | nil =>
      have hfinish : t.finish state = some marks := hreports
      have hall : spelled o.strip depth (marks ++ []) = .ok feed := by rwa [List.append_nil]
      obtain ⟨events, depth', behind, hevents, hbehind, rfl⟩ := eventsOf_of_spelled hall []
      cases hbehind
      rw [feedFrom, hfinish]
      dsimp only
      rw [hevents]
      dsimp only
      rw [joined_behind, Feed.afterEvents, Feed.joined_after]
      rfl
  | cons piece rest ih =>
      rw [Tokenizer.reportsFrom] at hreports
      obtain ⟨⟨first, state'⟩, hfirst, hreports⟩ := Option.bind_eq_some_iff.mp hreports
      obtain ⟨later, hlater, hmarks⟩ := Option.bind_eq_some_iff.mp hreports
      obtain rfl := Option.some.inj hmarks
      obtain ⟨events, depth', behind, hevents, hbehind, rfl⟩ := eventsOf_of_spelled hspelled []
      rw [feedFrom, hfirst]
      dsimp only
      rw [hevents]
      dsimp only
      rw [ih hlater hbehind, List.foldl_cons]
      rfl

/-! ### Documents that are well-formed -/

/-- A name is delivered as one. -/
theorem deliveredName_of_isName (strip : Bool) {name : String} (h : Mark.IsName name) :
    ∃ delivered, deliveredName strip name = .ok delivered ∧ delivered ≠ "" := by
  obtain ⟨base, hbase, hne⟩ := h
  cases strip with
  | true => exact ⟨base, by rw [deliveredName, if_pos rfl, hbase], hne⟩
  | false =>
      refine ⟨name, rfl, ?_⟩
      rintro rfl
      obtain rfl : "" = base := Option.some.inj hbase
      exact hne rfl

/-- Attributes with names are delivered. -/
theorem deliveredAttributes_of_isName (strip : Bool) {attributes : List (String × String)}
    (h : ∀ a ∈ attributes, Mark.IsName a.1) :
    ∃ delivered, deliveredAttributes strip attributes = .ok delivered := by
  suffices hall : ∃ delivered, attributes.mapM (deliveredAttribute strip) = .ok delivered by
    obtain ⟨delivered, hdelivered⟩ := hall
    exact ⟨Table.ofPairs delivered, by rw [deliveredAttributes, hdelivered]; rfl⟩
  induction attributes with
  | nil => exact ⟨[], rfl⟩
  | cons a rest ih =>
      obtain ⟨name, hname, -⟩ := deliveredName_of_isName strip (h a List.mem_cons_self)
      obtain ⟨delivered, hrest⟩ := ih fun x hx => h x (List.mem_cons_of_mem a hx)
      refine ⟨(name, a.2) :: delivered, ?_⟩
      rw [List.mapM_cons, hrest, deliveredAttribute, hname]
      rfl

/-- A name that is not empty is accepted. -/
theorem readName_text {name : String} (h : name ≠ "") :
    Event.readName (.text name) = .ok name := by
  have htruthy : (Value.text name).isTruthy = true := by
    rw [Value.isTruthy, String.isEmpty_eq_false_iff.mpr h]
    rfl
  rw [Event.readName, if_pos htruthy]
  rfl

/-- A depth from one up is accepted. -/
theorem readDepth_succ (depth : Nat) :
    Event.readDepth 1 .lowDepth (.int (depth + 1)) = .ok (depth + 1) := by
  have hbelow : (Value.int (depth + 1)).below? 1 = some false := by
    rw [Value.below?, decide_eq_false (by omega)]
  rw [Event.readDepth, hbelow]
  rfl

/-- With such a name and such a depth there is an event for an element entered. -/
theorem opened?_text {name : String} (h : name ≠ "") (attributes : Table Value) (depth : Nat) :
    Event.opened? (.text name) attributes (.int (depth + 1)) =
      .ok (.opened name attributes (depth + 1)) := by
  rw [Event.opened?, readName_text h, readDepth_succ]
  rfl

/-- And one for an element left. -/
theorem closed?_text {name : String} (h : name ≠ "") (depth : Nat) :
    Event.closed? (.text name) (.int (depth + 1)) = .ok (.closed name (depth + 1)) := by
  rw [Event.closed?, readName_text h, readDepth_succ]
  rfl

/-- The start of an element with names is an event. -/
theorem eventOf_start (strip : Bool) {name : String} {attributes : List (String × String)}
    (hname : Mark.IsName name) (hattributes : ∀ a ∈ attributes, Mark.IsName a.1) (depth : Nat) :
    ∃ delivered table, deliveredName strip name = .ok delivered ∧
      deliveredAttributes strip attributes = .ok table ∧
      eventOf strip depth (.start name attributes) =
        .ok (.opened delivered (table.map fun (key, s) => (key, .text s)) (depth + 1),
          depth + 1) := by
  obtain ⟨delivered, hdelivered, hne⟩ := deliveredName_of_isName strip hname
  obtain ⟨table, htable⟩ := deliveredAttributes_of_isName strip hattributes
  refine ⟨delivered, table, hdelivered, htable, ?_⟩
  rw [eventOf, htable, hdelivered]
  exact congrArg (fun e => (checked e).bind fun e => .ok (e, depth + 1)) (opened?_text hne _ depth)

/-- The end of an element with a name is an event, where one is open. -/
theorem eventOf_finish (strip : Bool) {name : String} (hname : Mark.IsName name) (depth : Nat) :
    ∃ delivered, deliveredName strip name = .ok delivered ∧
      eventOf strip (depth + 1) (.finish name) = .ok (.closed delivered (depth + 1), depth) := by
  obtain ⟨delivered, hdelivered, hne⟩ := deliveredName_of_isName strip hname
  refine ⟨delivered, hdelivered, ?_⟩
  rw [eventOf, hdelivered]
  exact congrArg (fun e => (checked e).bind fun e => .ok (e, depth)) (closed?_text hne depth)

/-- Elements inside each other are spelled. -/
theorem spelled_of_nests (strip : Bool) {opened : List String} {marks : List Mark}
    (h : Mark.Nests opened marks) :
    ∃ feed, spelled strip opened.length marks = .ok feed := by
  induction marks generalizing opened with
  | nil => exact ⟨.done, rfl⟩
  | cons m rest ih =>
      cases m with
      | start name attributes =>
          obtain ⟨hname, hattributes, hrest⟩ := h
          obtain ⟨_, _, -, -, he⟩ := eventOf_start strip hname hattributes opened.length
          obtain ⟨feed, hfeed⟩ := ih hrest
          exact ⟨_, by
            rw [spelled_cons, he, Except.bind, ← List.length_cons (a := name), hfeed]; rfl⟩
      | finish name =>
          obtain ⟨hname, around, rfl, hrest⟩ := h
          obtain ⟨_, -, he⟩ := eventOf_finish strip hname around.length
          obtain ⟨feed, hfeed⟩ := ih hrest
          exact ⟨_, by rw [spelled_cons, List.length_cons, he, Except.bind, hfeed]; rfl⟩
      | data s =>
          obtain ⟨feed, hfeed⟩ := ih h
          exact ⟨_, by rw [spelled_data, hfeed]; rfl⟩

/-- **However a document is given and however much of it is read at a time, its feed is the same**
once texts are joined, and comes to its end. -/
theorem joined_feed {t : Tokenizer} {resolve huge : Bool} {doc : String} {marks : List Mark}
    (hread : t.Reads resolve huge (encode doc.toList) marks) (strip : Bool) :
    ∃ whole : Feed, whole.last = .done ∧ ∀ chunkSize correlation s, Source.Holds doc s →
      s.Admits chunkSize →
      (feed t { chunkSize, strip, resolve, huge, correlation } s).joined = whole := by
  obtain ⟨whole, hwhole⟩ := spelled_of_nests strip hread.nests
  refine ⟨whole, last_spelled hwhole, fun chunkSize correlation s hs hsize => ?_⟩
  obtain ⟨cs, hchunks, hbytes, hpieces⟩ := chunks_of_holds hs hsize
  have hcs : cs.isEmpty = false := by
    rw [List.isEmpty_eq_false_iff]
    rintro rfl
    exact hread.nonempty hbytes.symm
  obtain ⟨reported, hreported, hjoined⟩ :=
    Option.map_eq_some_iff.mp (hread.reports (isText s) cs hpieces hbytes)
  have hspelled : spelled strip 0 reported = .ok whole := by
    rw [← spelled_joined, hjoined]
    exact hwhole
  rw [feed, hchunks]
  dsimp only
  rw [feedOf, hcs]
  exact joined_feedFrom hreported hspelled []

end Document

end MarkupRouting
