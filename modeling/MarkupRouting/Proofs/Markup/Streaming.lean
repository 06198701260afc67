import MarkupRouting.Proofs.Routing.EntryPoints
import MarkupRouting.Proofs.Routing.Taken

/-!
# Documents as streams

What a tokenizer reports of a document is handed out piece by piece: one event for each report, all
events of a piece before the next piece is read. A piece that is refused ends the feed, and of the
pieces in front of it nothing is lost.

* **Feed.reads**, **upTo** — the pieces that a feed reads; a feed that is left behind so many items.
* **Tokenizer.Answers** — how a tokenizer answers the pieces of a document; **Reads.nested** — one
  that is incremental reports of elements inside each other, in whatever pieces they come.
* **Mark.Told**, **Event.At** — the event for a report; the depth and name of an event.
* **Document.streamFrom**, **feedFrom_eq** — the feed of a document, one piece after the other;
  **joined_feedOf** — with its texts joined it is what its reports spell, as far as they go.
* **Document.Streams**, **streamFrom_streams** — what it hands out, and when it reads what.
* **Document.open_streams** — all of that for a source.
-/

namespace MarkupRouting

open Markup

/-! ### Asking a feed -/

namespace Feed

/-- The pieces that are read. -/
def reads : Feed → List (List UInt8)
  | done | fault _ => []
  | item _ rest | note _ rest => rest.reads
  | read chunk rest => chunk :: rest.reads

/-- The feed as far as it goes where it is asked so many times and then left, as an iterator that is
closed early. Only what is read and recorded in front of the last item asked for takes place. -/
def upTo : Nat → Feed → Feed
  | 0, _ => done
  | _ + 1, done => done
  | _ + 1, fault f => fault f
  | n + 1, item i rest => item i (upTo n rest)
  | n + 1, read chunk rest => read chunk (upTo (n + 1) rest)
  | n + 1, note r rest => note r (upTo (n + 1) rest)

variable {events : List Event} {rest : Feed}

/-- Of no items nothing has been read. -/
@[simp] theorem upTo_zero (feed : Feed) : feed.upTo 0 = done := by cases feed <;> rfl

/-- A feed that is left hands out what it was asked for. -/
theorem items_upTo (n : Nat) (feed : Feed) : (feed.upTo n).items = feed.items.take n := by
  induction feed generalizing n with
  | done => cases n <;> rfl
  | fault f => cases n <;> rfl
  | item i rest ih =>
      cases n with
      | zero => rfl
      | succ n => exact congrArg (i :: ·) (ih n)
  | read chunk rest ih =>
      cases n with
      | zero => rfl
      | succ n => exact ih (n + 1)
  | note r rest ih =>
      cases n with
      | zero => rfl
      | succ n => exact ih (n + 1)

/-- Events in front of a feed are handed out first. -/
@[simp] theorem items_afterEvents (events : List Event) (rest : Feed) :
    (afterEvents events rest).items = events.map .event ++ rest.items := by
  induction events with
  | nil => rfl
  | cons e events ih => exact congrArg (Item.event e :: ·) ih

/-- Events in front of a feed are handed out without reading more. -/
@[simp] theorem reads_afterEvents (events : List Event) (rest : Feed) :
    (afterEvents events rest).reads = rest.reads := by
  induction events with
  | nil => rfl
  | cons e events ih => exact ih

/-- Events in front of a feed do not change its end. -/
@[simp] theorem last_afterEvents (events : List Event) (rest : Feed) :
    (afterEvents events rest).last = rest.last := by
  induction events with
  | nil => rfl
  | cons e events ih => exact ih

/-- While events are handed out nothing is read. -/
theorem reads_upTo_afterEvents (n : Nat) (events : List Event) (rest : Feed) :
    ((afterEvents events rest).upTo n).reads = (rest.upTo (n - events.length)).reads := by
  induction events generalizing n with
  | nil => rfl
  | cons e events ih =>
      cases n with
      | zero => rw [Nat.zero_sub, upTo_zero, upTo_zero]
      | succ n =>
          rw [List.length_cons, Nat.add_sub_add_right]
          exact ih n

/-- The feed with something else at its end. -/
def endedBy : Feed → Feed → Feed
  | done, last => last
  | fault f, _ => fault f
  | item i rest, last => item i (rest.endedBy last)
  | read chunk rest, last => read chunk (rest.endedBy last)
  | note r rest, last => note r (rest.endedBy last)

/-- What stands in front of a feed stands in front of it with something else at its end, if no more
texts come there. -/
theorem endedBy_lead {last : Feed} (hlast : last = done ∨ ∃ f, last = fault f) (i : Item)
    (feed : Feed) : (lead i feed).endedBy last = lead i (feed.endedBy last) := by
  unfold lead
  split
  next s depth =>
    split_ifs with hs
    · rfl
    · cases feed with
      | done => obtain rfl | ⟨f, rfl⟩ := hlast <;> rfl
      | fault f => rfl
      | read chunk rest => rfl
      | note r rest => rfl
      | item i rest =>
          rw [endedBy]
          split
          next heq =>
            cases heq
            rfl
          next hother =>
            split
            next heq =>
              cases heq
              exact absurd rfl (hother _ _ _)
            · rfl
  · rfl

/-- Where a feed is to end in another way, the items in front of its end stay. -/
theorem endedBy_foldr_lead {last : Feed} (hlast : last = done ∨ ∃ f, last = fault f)
    (front : List Item) (feed : Feed) :
    (front.foldr lead feed).endedBy last = front.foldr lead (feed.endedBy last) := by
  induction front with
  | nil => rfl
  | cons i front ih =>
      rw [List.foldr_cons, endedBy_lead hlast, ih]
      rfl

/-- A piece is read when something is asked for. -/
theorem reads_upTo_read {n : Nat} (hn : 0 < n) (chunk : List UInt8) (rest : Feed) :
    ((read chunk rest).upTo n).reads = chunk :: (rest.upTo n).reads := by
  cases n with
  | zero => exact absurd hn (Nat.lt_irrefl 0)
  | succ n => rfl

end Feed

/-! ### Answers -/

namespace Markup

/-- How a tokenizer ends. -/
inductive Tokenizer.Ending where
  /-- It was never asked. -/
  | empty
  /-- It refuses this piece. -/
  | refused (piece : List UInt8)
  /-- It refuses the end of the document. -/
  | unfinished
  /-- It reports these of the end. -/
  | finished (marks : List Mark)

/-- How a tokenizer answers the pieces of a document: the pieces it takes, each with what it reports
of it, and how it ends. The claims about streaming are read off this list, with no regard to the
loop that feeds it. -/
structure Tokenizer.Answers where
  /-- The pieces that it takes, each with what it reports of it. -/
  fed : List (List UInt8 × List Mark)
  /-- How it ends. -/
  ending : Tokenizer.Ending

namespace Tokenizer

/-- How a tokenizer answers the remaining pieces of a document. -/
def answersFrom (t : Tokenizer) (state : t.State) : List (List UInt8) → Answers
  | [] =>
    match t.finish state with
    | none => ⟨[], .unfinished⟩
    | some marks => ⟨[], .finished marks⟩
  | piece :: rest =>
    match t.feed state piece with
    | none => ⟨[], .refused piece⟩
    | some (marks, state) =>
      let later := t.answersFrom state rest
      ⟨(piece, marks) :: later.fed, later.ending⟩

/-- How a tokenizer answers the pieces of a document. Without any it is not asked. -/
def answers (t : Tokenizer) (o : Options) (pieces : List (List UInt8)) : Answers :=
  if pieces.isEmpty then ⟨[], .empty⟩ else t.answersFrom (t.start o) pieces

namespace Answers

/-- All that is reported. -/
def marks (a : Answers) : List Mark :=
  a.fed.flatMap Prod.snd ++
    match a.ending with
    | .finished marks => marks
    | _ => []

/-- The pieces that are handed over. -/
def pieces (a : Answers) : List (List UInt8) :=
  a.fed.map Prod.fst ++
    match a.ending with
    | .refused piece => [piece]
    | _ => []

/-- Where the feed of the document ends: at its end, with the fault of a document that is empty, or
with that of one that is malformed. -/
def last (a : Answers) : Feed :=
  match a.ending with
  | .empty => .fault .emptyDocument
  | .refused _ | .unfinished => .fault .malformed
  | .finished _ => .done

/-- The answers to all pieces end a feed or break it off; they never leave it open. -/
theorem last_cases (a : Answers) : a.last = .done ∨ ∃ f, a.last = .fault f := by
  unfold last
  cases a.ending with
  | empty => exact .inr ⟨_, rfl⟩
  | refused piece => exact .inr ⟨_, rfl⟩
  | unfinished => exact .inr ⟨_, rfl⟩
  | finished marks => exact .inl rfl

/-- What is reported is the beginning of reports of elements inside each other. Where a piece is
refused the rest never comes, so that no more than this can be asked of a tokenizer. -/
def Nested (a : Answers) : Prop := ∃ later, Mark.Nests [] (a.marks ++ later)

end Answers

/-- Where nothing is refused the answers are all that is reported, up to the end. -/
theorem answersFrom_of_reports {t : Tokenizer} {state : t.State} {pieces : List (List UInt8)}
    {marks : List Mark} (h : t.reportsFrom state pieces = some marks) :
    (t.answersFrom state pieces).marks = marks ∧ (t.answersFrom state pieces).last = .done := by
  induction pieces generalizing state marks with
  | nil =>
      have hfinish : t.finish state = some marks := h
      rw [answersFrom, hfinish]
      exact ⟨rfl, rfl⟩
  | cons piece rest ih =>
      rw [reportsFrom] at h
      obtain ⟨⟨first, state'⟩, hfirst, h⟩ := Option.bind_eq_some_iff.mp h
      obtain ⟨later, hlater, hmarks⟩ := Option.bind_eq_some_iff.mp h
      obtain rfl := Option.some.inj hmarks
      obtain ⟨hrest, hlast⟩ := ih hlater
      rw [answersFrom, hfirst, ← hrest]
      exact ⟨List.append_assoc _ _ _, hlast⟩

/-- Where nothing is refused the answers are all that is reported, up to the end. -/
theorem answers_of_reports {t : Tokenizer} {o : Options} {pieces : List (List UInt8)}
    {marks : List Mark} (hsome : pieces ≠ []) (h : t.reports o pieces = some marks) :
    (t.answers o pieces).marks = marks ∧ (t.answers o pieces).last = .done := by
  rw [answers, List.isEmpty_eq_false_iff.mpr hsome, if_neg Bool.false_ne_true]
  exact answersFrom_of_reports h

/-- Pieces are handed over in order until one is refused, the first one in any case, and a tokenizer
that is asked does not end as if it was not. -/
theorem pieces_answersFrom (t : Tokenizer) (state : t.State) (pieces : List (List UInt8)) :
    let a := t.answersFrom state pieces
    a.pieces <+: pieces ∧ ((∀ piece, a.ending ≠ .refused piece) → a.pieces = pieces) ∧
      (pieces ≠ [] → a.pieces ≠ []) ∧ a.ending ≠ .empty := by
  induction pieces generalizing state with
  | nil =>
      rw [answersFrom]
      cases t.finish state with
      | none => exact ⟨List.prefix_rfl, fun _ => rfl, id, nofun⟩
      | some marks => exact ⟨List.prefix_rfl, fun _ => rfl, id, nofun⟩
  | cons piece rest ih =>
      rw [answersFrom]
      cases t.feed state piece with
      | none =>
          exact ⟨List.prefix_append [piece] rest, fun h => absurd rfl (h piece), fun _ => nofun,
            nofun⟩
      | some answer =>
          obtain ⟨hfront, hall, -, hasked⟩ := ih answer.2
          exact ⟨(List.prefix_cons_inj piece).mpr hfront, fun h => congrArg (piece :: ·) (hall h),
            fun _ => nofun, hasked⟩

/-- Pieces are handed over in order until one is refused. There is none exactly where the document
is called empty. -/
theorem pieces_answers (t : Tokenizer) (o : Options) (pieces : List (List UInt8)) :
    let a := t.answers o pieces
    a.pieces <+: pieces ∧ ((∀ piece, a.ending ≠ .refused piece) → a.pieces = pieces) ∧
      (a.last = .fault .emptyDocument ↔ a.pieces = []) := by
  rw [answers]
  split_ifs with hnone
  · obtain rfl := List.isEmpty_iff.mp hnone
    exact ⟨List.prefix_rfl, fun _ => rfl, iff_of_true rfl rfl⟩
  · obtain ⟨hfront, hall, hsome, hasked⟩ := t.pieces_answersFrom (t.start o) pieces
    refine ⟨hfront, hall, iff_of_false ?_ (hsome fun h => hnone (List.isEmpty_iff.mpr h))⟩
    rw [Answers.last]
    generalize (t.answersFrom (t.start o) pieces).ending = ending at hasked ⊢
    cases ending with
    | empty => exact absurd rfl hasked
    | refused piece => exact nofun
    | unfinished => exact nofun
    | finished marks => exact nofun

end Tokenizer

/-- Texts have nothing to do with which elements are inside each other. -/
theorem Mark.nests_joined {opened : List String} {marks : List Mark} :
    Mark.Nests opened (Mark.joined marks) ↔ Mark.Nests opened marks := by
  have hlead : ∀ opened m rest, Mark.Nests opened (Mark.lead m rest) ↔
      Mark.Nests opened (m :: rest) := by
    intro opened m rest
    unfold Mark.lead
    split
    · split_ifs
      · exact Iff.rfl
      · split
        · exact Iff.rfl
        · exact Iff.rfl
    · exact Iff.rfl
  induction marks generalizing opened with
  | nil => exact Iff.rfl
  | cons m rest ih =>
      refine (hlead opened m (Mark.joined rest)).trans ?_
      cases m with
      | start name attributes => exact and_congr_right fun _ => and_congr_right fun _ => ih
      | finish name =>
          exact and_congr_right fun _ => exists_congr fun _ => and_congr_right fun _ => ih
      | data s => exact ih

/-- A tokenizer that is incremental for a document reports of elements inside each other in whatever
pieces the document comes. -/
theorem Tokenizer.Reads.nested {t : Tokenizer} {resolve huge : Bool} {bytes : List UInt8}
    {marks : List Mark} (h : t.Reads resolve huge bytes marks) (isUtf8 : Bool)
    {pieces : List (List UInt8)} (hpieces : [] ∉ pieces) (hflatten : pieces.flatten = bytes) :
    (t.answers { isUtf8, resolve, huge } pieces).Nested := by
  obtain ⟨reported, hreported, rfl⟩ :=
    Option.map_eq_some_iff.mp (h.reports isUtf8 pieces hpieces hflatten)
  have hsome : pieces ≠ [] := by
    rintro rfl
    exact h.nonempty hflatten.symm
  refine ⟨[], ?_⟩
  rw [List.append_nil, (Tokenizer.answers_of_reports hsome hreported).1]
  exact Mark.nests_joined.mp h.nests

end Markup

/-! ### Events -/

/-- The event is the one for the report, depths aside. -/
def Markup.Mark.Told (strip : Bool) : Mark → Event → Prop
  | .start name attributes, .opened name' attributes' _ =>
    Document.deliveredName strip name = .ok name' ∧
      ∃ table, Document.deliveredAttributes strip attributes = .ok table ∧
        attributes' = table.map fun (key, s) => (key, .text s)
  | .finish name, .closed name' _ => Document.deliveredName strip name = .ok name'
  | .data s, .text s' _ => s' = s
  | _, _ => False

/-- The event fits where elements of these names are open, from the root down: its depth is how many
are open with its own, and an element that is left is the innermost one. -/
def Event.At (names : List String) : Event → Prop
  | .opened _ _ depth => depth = names.length + 1
  | .text _ depth => depth = names.length
  | .closed name depth => depth = names.length ∧ names.getLast? = some name

namespace Item

/-- Every event among the items fits where the ones in front of it left off, with elements of the
given names open in front of all. -/
def Placed (names : List String) (items : List Item) : Prop :=
  ∀ front e back, items = front ++ .event e :: back → e.At (front.foldl track names)

/-- No items are in their places. -/
theorem placed_nil (names : List String) : Placed names [] := by
  intro front e back h
  cases front <;> cases h

/-- An event in its place, and the rest in the places behind it. -/
theorem Placed.cons {names : List String} {e : Event} {items : List Item} (he : e.At names)
    (h : Placed (track names (.event e)) items) : Placed names (.event e :: items) := by
  intro front e' back heq
  cases front with
  | nil =>
      obtain ⟨hsame, -⟩ := List.cons.inj heq
      obtain rfl := Item.event.inj hsame
      exact he
  | cons i front =>
      obtain ⟨rfl, hrest⟩ := List.cons.inj heq
      exact h front e' back hrest

/-- Items in their places one behind the other. -/
theorem Placed.append {names : List String} {items later : List Item} (h : Placed names items)
    (hlater : Placed (items.foldl track names) later) : Placed names (items ++ later) := by
  intro front e back heq
  obtain ⟨between, rfl, hback⟩ | ⟨between, rfl, hlast⟩ := List.append_eq_append_iff.mp heq
  · rw [List.foldl_append]
    exact hlater between e back hback
  · cases between with
    | nil =>
        rw [List.nil_append] at hlast
        rw [List.append_nil] at hlater
        exact hlater [] e back hlast.symm
    | cons i between =>
        obtain ⟨rfl, -⟩ := List.cons.inj hlast
        exact h front e between rfl

end Item

namespace Document

variable {t : Tokenizer} {o : Options} {strip : Bool}

/-- A name as it is delivered, where it can be. -/
def shownName (strip : Bool) (name : String) : String :=
  (deliveredName strip name).toOption.getD name

/-- The names of open elements as they are delivered, from the root down; they are given as
reported, the innermost one first. -/
def shownNames (strip : Bool) (opened : List String) : List String :=
  (opened.map (shownName strip)).reverse

/-- The name of an element that is entered comes last among those shown. -/
theorem shownNames_cons {name delivered : String} (h : deliveredName strip name = .ok delivered)
    (opened : List String) :
    shownNames strip (name :: opened) = shownNames strip opened ++ [delivered] := by
  rw [shownNames, List.map_cons, List.reverse_cons, shownName, h]
  rfl

/-- As many names are shown as elements are open. -/
theorem length_shownNames (strip : Bool) (opened : List String) :
    (shownNames strip opened).length = opened.length := by
  rw [shownNames, List.length_reverse, List.length_map]

/-- These events are told of the reports: one of each, in order, and each fits. The open elements in
front of them and behind them have the given names, as they are reported. -/
structure Tells (strip : Bool) (opened : List String) (marks : List Mark) (events : List Event)
    (opened' : List String) : Prop where
  /-- There is one event for each report, in order. -/
  told : List.Forall₂ (Mark.Told strip) marks events
  /-- Every event fits. -/
  placed : Item.Placed (shownNames strip opened) (events.map .event)
  /-- The events open and leave the elements that the reports do. -/
  track_eq : (events.map Item.event).foldl Item.track (shownNames strip opened) =
    shownNames strip opened'

/-- One report more in front. -/
theorem Tells.cons {opened next opened' : List String} {m : Mark} {e : Event} {rest : List Mark}
    {events : List Event} (htold : m.Told strip e) (hat : e.At (shownNames strip opened))
    (htrack : Item.track (shownNames strip opened) (.event e) = shownNames strip next)
    (h : Tells strip next rest events opened') :
    Tells strip opened (m :: rest) (e :: events) opened' :=
  ⟨.cons htold h.told, .cons hat (htrack ▸ h.placed), by
    rw [List.map_cons, List.foldl_cons, htrack, h.track_eq]⟩

/-- The event of one report of elements inside each other. -/
theorem eventOf_of_nests (strip : Bool) {opened : List String} {m : Mark} {rest : List Mark}
    (h : Mark.Nests opened (m :: rest)) :
    ∃ e next, eventOf strip opened.length m = .ok (e, next.length) ∧ Mark.Nests next rest ∧
      m.Told strip e ∧ e.At (shownNames strip opened) ∧
      Item.track (shownNames strip opened) (.event e) = shownNames strip next := by
  have hlength := length_shownNames strip opened
  cases m with
  | start name attributes =>
      obtain ⟨hname, hattributes, hrest⟩ := h
      obtain ⟨delivered, table, hdelivered, htable, he⟩ :=
        eventOf_start strip hname hattributes opened.length
      refine ⟨_, name :: opened, he, hrest, ⟨hdelivered, table, htable, rfl⟩, ?_, ?_⟩
      · exact congrArg (· + 1) hlength.symm
      · exact (shownNames_cons hdelivered opened).symm
  | finish name =>
      obtain ⟨hname, around, rfl, hrest⟩ := h
      obtain ⟨delivered, hdelivered, he⟩ := eventOf_finish strip hname around.length
      refine ⟨_, around, he, hrest, hdelivered, ⟨hlength.symm, ?_⟩, ?_⟩
      · rw [shownNames_cons hdelivered, List.getLast?_concat]
      · rw [shownNames_cons hdelivered]
        exact List.dropLast_concat
  | data s => exact ⟨_, opened, rfl, h, rfl, hlength.symm, rfl⟩

/-- **The events for reports of elements inside each other**: one for each report, in order, each
with the right depth and name. -/
theorem eventsOf_of_nests (strip : Bool) {opened : List String} {marks later : List Mark}
    (h : Mark.Nests opened (marks ++ later)) (sofar : List Event) :
    ∃ events opened', eventsOf strip opened.length sofar marks =
        .ok (sofar.reverse ++ events, opened'.length) ∧
      Mark.Nests opened' later ∧ Tells strip opened marks events opened' := by
  induction marks generalizing opened sofar with
  | nil =>
      exact ⟨[], opened, by rw [List.append_nil]; rfl, h, .nil, Item.placed_nil _, rfl⟩
  | cons m rest ih =>
      obtain ⟨e, next, he, hnests, htold, hat, htrack⟩ := eventOf_of_nests strip h
      obtain ⟨events, opened', hevents, hlater, htells⟩ := ih hnests (e :: sofar)
      refine ⟨e :: events, opened', ?_, hlater, .cons htold hat htrack htells⟩
      rw [eventsOf, he]
      dsimp only
      rw [hevents, List.reverse_cons, List.append_assoc]
      rfl

/-! ### The feed of a document -/

/-- The feed of a document whose remaining pieces are given, where so many were read. -/
def streamFrom (t : Tokenizer) (o : Options) (fed : Nat) (state : t.State) (depth : Nat) :
    List (List UInt8) → Feed
  | [] =>
    match t.finish state with
    | none => refusedAfter o.correlation fed
    | some marks =>
      match eventsOf o.strip depth [] marks with
      | .error fault => .fault fault
      | .ok (events, _) => .afterEvents events (.note (exhausted o.correlation fed) .done)
  | chunk :: rest =>
    .read chunk <|
      match t.feed state chunk with
      | none => refusedAfter o.correlation fed
      | some (marks, state) =>
        match eventsOf o.strip depth [] marks with
        | .error fault => .fault fault
        | .ok (events, depth) => .afterEvents events (streamFrom t o (fed + 1) state depth rest)

/-- What was read stands in front of the rest. -/
theorem feedFrom_eq (t : Tokenizer) (o : Options) (state : t.State) (depth : Nat)
    (read : List (List UInt8 × List Event)) (cs : List (List UInt8)) :
    feedFrom t o state depth read cs = behind read (streamFrom t o read.length state depth cs) := by
  induction cs generalizing state depth read with
  | nil =>
      unfold feedFrom streamFrom
      cases t.finish state with
      | none => rfl
      | some marks =>
          dsimp only
          cases eventsOf o.strip depth [] marks with
          | error fault => rfl
          | ok told => rfl
  | cons chunk rest ih =>
      unfold feedFrom streamFrom
      cases t.feed state chunk with
      | none => rfl
      | some answer =>
          dsimp only
          cases eventsOf o.strip depth [] answer.1 with
          | error fault => rfl
          | ok told =>
              dsimp only
              rw [ih]
              rfl

/-- With texts joined the rest of a document is what is still reported of it. -/
theorem joined_streamFrom {state : t.State} {depth : Nat} {whole : Feed} (cs : List (List UInt8))
    (fed : Nat) (h : spelled o.strip depth (t.answersFrom state cs).marks = .ok whole) :
    (streamFrom t o fed state depth cs).joined = whole.endedBy (t.answersFrom state cs).last := by
  induction cs generalizing state depth whole fed with
  | nil =>
      unfold Tokenizer.answersFrom at h ⊢
      unfold streamFrom
      cases hfinish : t.finish state with
      | none =>
          rw [hfinish] at h
          cases h
          rfl
      | some marks =>
          rw [hfinish] at h
          have hall : spelled o.strip depth (marks ++ []) = .ok whole := by rwa [List.append_nil]
          obtain ⟨events, depth', behind, hevents, hbehind, rfl⟩ := eventsOf_of_spelled hall []
          cases hbehind
          dsimp only
          rw [hevents]
          dsimp only
          rw [List.reverse_nil, List.nil_append, Feed.afterEvents, Feed.joined_after,
            Feed.endedBy_foldr_lead (Tokenizer.Answers.last_cases _)]
          rfl
  | cons chunk rest ih =>
      unfold Tokenizer.answersFrom at h ⊢
      unfold streamFrom
      cases hanswer : t.feed state chunk with
      | none =>
          rw [hanswer] at h
          cases h
          rfl
      | some answer =>
          obtain ⟨marks, state'⟩ := answer
          rw [hanswer] at h
          have hall : spelled o.strip depth (marks ++ (t.answersFrom state' rest).marks) =
              .ok whole :=
            (congrArg (spelled o.strip depth) (List.append_assoc _ _ _)).symm.trans h
          obtain ⟨events, depth', behind, hevents, hbehind, rfl⟩ := eventsOf_of_spelled hall []
          dsimp only
          rw [hevents]
          dsimp only
          rw [List.reverse_nil, List.nil_append, Feed.joined, Feed.afterEvents, Feed.joined_after,
            ih (fed + 1) hbehind]
          exact (Feed.endedBy_foldr_lead (Tokenizer.Answers.last_cases _) _ _).symm

/-- **With texts joined a document is what is reported of it**, and ends as the tokenizer does. -/
theorem joined_feedOf {isUtf8 : Bool} {cs : List (List UInt8)} {whole : Feed}
    (h : spelled o.strip 0
      (t.answers { isUtf8, resolve := o.resolve, huge := o.huge } cs).marks = .ok whole) :
    (feedOf t o isUtf8 cs).joined =
      whole.endedBy (t.answers { isUtf8, resolve := o.resolve, huge := o.huge } cs).last := by
  rw [Tokenizer.answers] at h ⊢
  rw [feedOf]
  split_ifs at h ⊢ with hnone
  · cases h
    rfl
  · rw [feedFrom_eq]
    exact joined_streamFrom cs 0 h

/-- **A feed hands out what a tokenizer answers**, while elements of these names are open in front
of it. -/
structure Streams (strip : Bool) (names : List String) (a : Tokenizer.Answers) (feed : Feed) :
    Prop where
  /-- There is one event for each report, in order, and nothing else. -/
  told : ∃ events, feed.items = events.map .event ∧ List.Forall₂ (Mark.Told strip) a.marks events
  /-- Every event has the right depth, and what is left is what was entered last. -/
  placed : Item.Placed names feed.items
  /-- The pieces are read that are handed over. -/
  reads_eq : feed.reads = a.pieces
  /-- As long as no more than the events of a piece is asked for no later piece is read. -/
  paced : ∀ front piece marks back, a.fed = front ++ (piece, marks) :: back →
    ∀ n, (front.flatMap Prod.snd).length < n → n ≤ (front.flatMap Prod.snd).length + marks.length →
      (feed.upTo n).reads = front.map Prod.fst ++ [piece]
  /-- Where more is asked for everything is read. -/
  spent : ∀ n, (a.fed.flatMap Prod.snd).length < n → (feed.upTo n).reads = feed.reads
  /-- It ends as the tokenizer does. -/
  last_eq : feed.last = a.last

/-- One piece more in front. -/
theorem Streams.cons {opened opened' : List String} {a : Tokenizer.Answers} {feed : Feed}
    {chunk : List UInt8} {marks : List Mark} {events : List Event}
    (htells : Tells strip opened marks events opened')
    (h : Streams strip (shownNames strip opened') a feed) :
    Streams strip (shownNames strip opened) ⟨(chunk, marks) :: a.fed, a.ending⟩
      (.read chunk (.afterEvents events feed)) := by
  obtain ⟨htold, hplaced, htrack⟩ := htells
  obtain ⟨⟨later, hitems, hlater⟩, hplaced', hreads, hpaced, hspent, hlast⟩ := h
  have hlength : marks.length = events.length := htold.length_eq
  have hupTo : ∀ {n}, 0 < n → ((Feed.read chunk (.afterEvents events feed)).upTo n).reads =
      chunk :: (feed.upTo (n - events.length)).reads := fun hn => by
    rw [Feed.reads_upTo_read hn, Feed.reads_upTo_afterEvents]
  constructor
  · refine ⟨events ++ later, ?_, ?_⟩
    · rw [Feed.items, Feed.items_afterEvents, hitems, List.map_append]
    · have hmarks : Tokenizer.Answers.marks ⟨(chunk, marks) :: a.fed, a.ending⟩ =
          marks ++ a.marks := List.append_assoc _ _ _
      rw [hmarks]
      exact List.rel_append htold hlater
  · rw [Feed.items, Feed.items_afterEvents]
    exact hplaced.append (htrack ▸ hplaced')
  · rw [Feed.reads, Feed.reads_afterEvents, hreads]
    rfl
  · intro front piece marks' back heq n hmore hless
    cases front with
    | nil =>
        obtain ⟨hfirst, -⟩ := List.cons.inj heq
        obtain ⟨rfl, rfl⟩ := Prod.mk.inj hfirst
        rw [List.flatMap_nil, List.length_nil] at hmore hless
        have hnone : n - events.length = 0 := by omega
        rw [hupTo hmore, hnone, Feed.upTo_zero]
        rfl
    | cons r front =>
        obtain ⟨rfl, hrest⟩ := List.cons.inj heq
        rw [List.flatMap_cons, List.length_append] at hmore hless
        dsimp only at hmore hless
        rw [hupTo (by omega), hpaced front piece marks' back hrest _ (by omega) (by omega)]
        rfl
  · intro n hmore
    dsimp only at hmore
    rw [List.flatMap_cons, List.length_append] at hmore
    dsimp only at hmore
    rw [hupTo (by omega), hspent _ (by omega), Feed.reads, Feed.reads_afterEvents]
  · rw [Feed.last, Feed.last_afterEvents, hlast]
    rfl

/-- Where no piece is taken any more. -/
theorem Streams.nil {opened opened' : List String} {ending : Tokenizer.Ending} {feed : Feed}
    {events : List Event}
    (htells : Tells strip opened (Tokenizer.Answers.mk [] ending).marks events opened')
    (hitems : feed.items = events.map .event)
    (hreads : feed.reads = (Tokenizer.Answers.mk [] ending).pieces)
    (hspent : ∀ n, 0 < n → (feed.upTo n).reads = feed.reads)
    (hlast : feed.last = (Tokenizer.Answers.mk [] ending).last) :
    Streams strip (shownNames strip opened) ⟨[], ending⟩ feed := by
  refine ⟨⟨events, hitems, htells.told⟩, hitems ▸ htells.placed, hreads, ?_, hspent, hlast⟩
  intro front piece marks back heq
  cases front <;> cases heq

/-- Where nothing is reported there are no events. -/
theorem Tells.nil (opened : List String) : Tells strip opened [] [] opened :=
  ⟨.nil, Item.placed_nil _, rfl⟩

/-- Behind a refused piece nothing more is read. -/
theorem reads_upTo_refusedAfter (correlation : Value) (fed n : Nat) :
    ((refusedAfter correlation fed).upTo n).reads = [] := by
  cases n <;> rfl

/-- **The remaining pieces of a document are handed out as they are answered.** -/
theorem streamFrom_streams {state : t.State} {opened : List String} {later : List Mark}
    (cs : List (List UInt8)) (fed : Nat)
    (h : Mark.Nests opened ((t.answersFrom state cs).marks ++ later)) :
    Streams o.strip (shownNames o.strip opened) (t.answersFrom state cs)
      (streamFrom t o fed state opened.length cs) := by
  induction cs generalizing state opened fed with
  | nil =>
      unfold Tokenizer.answersFrom at h ⊢
      unfold streamFrom
      cases hfinish : t.finish state with
      | none =>
          refine .nil (.nil opened) rfl rfl (fun n _ => ?_) rfl
          exact reads_upTo_refusedAfter o.correlation fed n
      | some marks =>
          rw [hfinish] at h
          have hnests : Mark.Nests opened (marks ++ later) := h
          obtain ⟨events, opened', hevents, -, htells⟩ := eventsOf_of_nests o.strip hnests []
          dsimp only
          rw [hevents]
          dsimp only
          rw [List.reverse_nil, List.nil_append]
          refine .nil htells ?_ ?_ (fun n _ => ?_) ?_
          · rw [Feed.items_afterEvents]
            exact List.append_nil _
          · rw [Feed.reads_afterEvents]
            rfl
          · rw [Feed.reads_upTo_afterEvents, Feed.reads_afterEvents]
            cases n - events.length <;> rfl
          · rw [Feed.last_afterEvents]
            rfl
  | cons chunk rest ih =>
      unfold Tokenizer.answersFrom at h ⊢
      unfold streamFrom
      cases hanswer : t.feed state chunk with
      | none =>
          refine .nil (.nil opened) rfl rfl (fun n hn => ?_) rfl
          dsimp only
          rw [Feed.reads_upTo_read hn, reads_upTo_refusedAfter]
          rfl
      | some answer =>
          obtain ⟨marks, state'⟩ := answer
          rw [hanswer] at h
          have hnests :
              Mark.Nests opened (marks ++ ((t.answersFrom state' rest).marks ++ later)) := by
            rw [← List.append_assoc]
            refine Eq.mp (congrArg (Mark.Nests opened) ?_) h
            exact congrArg (· ++ later) (List.append_assoc _ _ _)
          obtain ⟨events, opened', hevents, hlater, htells⟩ := eventsOf_of_nests o.strip hnests []
          dsimp only
          rw [hevents]
          exact .cons htells (ih (fed + 1) hlater)

/-- The feed of a document hands out what is answered of its pieces. -/
theorem feedOf_streams {isUtf8 : Bool} {cs : List (List UInt8)}
    (h : (t.answers { isUtf8, resolve := o.resolve, huge := o.huge } cs).Nested) :
    Streams o.strip [] (t.answers { isUtf8, resolve := o.resolve, huge := o.huge } cs)
      (feedOf t o isUtf8 cs) := by
  obtain ⟨later, hlater⟩ := h
  rw [Tokenizer.answers] at hlater ⊢
  rw [feedOf]
  split_ifs at hlater ⊢ with hnone
  · have hnil : Tells o.strip [] (Tokenizer.Answers.mk [] .empty).marks [] [] := .nil []
    refine .nil hnil rfl rfl (fun n _ => ?_) rfl
    cases n <;> rfl
  · rw [feedFrom_eq]
    exact streamFrom_streams cs 0 hlater

/-! ### Sources -/

/-- All that is said of the feed of a source: its bytes are read in pieces, none of which is empty,
until one of them is refused, and what is reported of them is handed out. -/
def Streamed (t : Tokenizer) (o : Options) (s : Source) (bytes : List UInt8) : Prop :=
  ∃ cs feed, chunks o.chunkSize s = .ok cs ∧ cs.flatten = bytes ∧ [] ∉ cs ∧
    open? t o s = .ok feed ∧
    let a := t.answers { isUtf8 := isText s, resolve := o.resolve, huge := o.huge } cs
    feed.reads <+: cs ∧ ((∀ piece, a.ending ≠ .refused piece) → feed.reads = cs) ∧
      (feed.last = .fault .emptyDocument ↔ feed.reads = []) ∧
      (∀ n, (feed.upTo n).items = feed.items.take n) ∧ Streams o.strip [] a feed

/-- **A document is streamed without loss** (`_read_stream`, `_chunks` and `_events`). Whatever its
bytes are and however they are given, the pieces make them up, for every size from one up that the
source takes: a document in memory takes them all, an open file those with which its own `read` does
not fail. As long as a tokenizer reports of elements inside each other, each of its reports is
handed out once, as an event with the right depth and name, in order; nothing is read before all
events in front of it were handed out, and nothing once the feed is left. A piece that is refused is
the last one, and the events of those in front of it are handed out before the document is called
malformed. It is called empty if nothing was read. -/
theorem open_streams {t : Tokenizer} {o : Options} {s : Source} {bytes : List UInt8}
    (hs : s.Contains bytes) (hsize : s.Admits o.chunkSize)
    (hnests : ∀ cs, chunks o.chunkSize s = .ok cs →
      (t.answers { isUtf8 := isText s, resolve := o.resolve, huge := o.huge } cs).Nested) :
    Streamed t o s bytes := by
  obtain ⟨cs, hchunks, hbytes, hpieces⟩ := chunks_of_contains hs hsize
  have hopen : open? t o s = .ok (feedOf t o (isText s) cs) := by
    rw [open?, atMostZero_of_admits hsize, feed, hchunks]
  have hstreams := feedOf_streams (hnests cs hchunks)
  obtain ⟨hfront, hall, hnone⟩ :=
    t.pieces_answers { isUtf8 := isText s, resolve := o.resolve, huge := o.huge } cs
  rw [← hstreams.reads_eq] at hfront hall hnone
  rw [← hstreams.last_eq] at hnone
  exact ⟨cs, _, hchunks, hbytes, hpieces, hopen, hfront, hall, hnone,
    fun n => Feed.items_upTo n _, hstreams⟩

/-- The characters of a short document in threes, out of an open file (`io.StringIO`): two pieces
are read for the first event, of which the second event is told as well, so that nothing more is
read for that. -/
theorem open_streams_accent :
    let o : Options := { chunkSize := .int 3 }
    let s : Source := .textStream Task.accent .ofNumbers
    Source.Contains (encode Task.accent.toList) s ∧
      Source.Admits s o.chunkSize ∧
      (∀ cs, chunks o.chunkSize s = .ok cs →
        (standard.answers { isUtf8 := true, resolve := false, huge := false } cs).Nested) ∧
      Streamed standard o s (encode Task.accent.toList) ∧
      ∃ feed, open? standard o s = .ok feed ∧
        (feed.upTo 2).reads = [encode "<p>".toList, encode "é</".toList] := by
  intro o s
  have hs : Source.Contains (encode Task.accent.toList) s := .textStream Task.accent .ofNumbers
  have hsize : Source.Admits s o.chunkSize := ⟨3, rfl, by decide, rfl⟩
  have hnests : ∀ cs, chunks o.chunkSize s = .ok cs →
      (standard.answers { isUtf8 := true, resolve := false, huge := false } cs).Nested := by
    intro cs hcs
    obtain ⟨cs', hcs', hbytes, hpieces⟩ := chunks_of_contains hs hsize
    obtain rfl := Except.ok.inj (hcs.symm.trans hcs')
    exact Task.reads_accent.nested true hpieces hbytes
  have hstreamed := open_streams hs hsize hnests
  refine ⟨hs, hsize, hnests, hstreamed, ?_⟩
  obtain ⟨cs, feed, hcs, -, -, hopen, -, -, -, -, hstreams⟩ := hstreamed
  obtain rfl : textPieces 3 Task.accent = cs := Except.ok.inj hcs
  have hfed : (standard.answers { isUtf8 := true, resolve := false, huge := false }
      (textPieces 3 Task.accent)).fed =
        [(encode "<p>".toList, []), (encode "é</".toList, [.start "p" [], .data "é"]),
          (encode "p>".toList, [.finish "p"])] := by decide +kernel
  exact ⟨feed, hopen, hstreams.paced [_] _ _ [_] hfed 2 (by decide) (by decide)⟩

/-- An open file that is in memory (`io.BytesIO`) hands out as much as a machine number says and no
more: of one number beyond them nothing is read, although it is an integer from one up. -/
theorem not_streamed_of_size :
    let o : Options := { chunkSize := .int 9223372036854775808 }
    let f : File := ⟨encode Task.accent.toList, .ofNumbers⟩
    Source.Contains f.contents (.byteStream f) ∧ (1 : Int) ≤ 9223372036854775808 ∧
      (∀ isUtf8 pieces, [] ∉ pieces → pieces.flatten = f.contents →
        (standard.answers { isUtf8, resolve := false, huge := false } pieces).Nested) ∧
      open? standard o (.byteStream f) = .ok (.fault .tooLarge) ∧
      ¬ Streamed standard o (.byteStream f) f.contents := by
  intro o f
  have hchunks : chunks o.chunkSize (.byteStream f) = .error .tooLarge := rfl
  refine ⟨.byteStream f, by decide, fun isUtf8 pieces hpieces hflatten =>
    Task.reads_accent.nested isUtf8 hpieces hflatten, rfl, ?_⟩
  rintro ⟨cs, -, hcs, -⟩
  rw [hchunks] at hcs
  cases hcs

end Document

end MarkupRouting
