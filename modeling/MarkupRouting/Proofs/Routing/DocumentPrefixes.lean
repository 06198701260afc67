import MarkupRouting.Proofs.Routing.Endings
import MarkupRouting.Proofs.Routing.Reading

/-!
# Documents that break off

Events that close no element that is not open spell a document, or the beginning of one: where they
end some elements may still be open. What a drive of such events calls is read off that beginning
as it is off a whole document.

* **Event.mark**, **Event.nested** — an event without what a drive does not look at; events that
  close open elements only.
* **Forest.Spelled** — the events of a document, whatever else they carry.
* **Level**, **Torn** — a document up to some point, seen from there: the row that the point is in,
  and the rows around it; **Torn.snoc** is one event more, and **Torn.ofEvents** reads them all.
* **Torn.visits** — the calls that are made up to there; **Torn.added** are those of one event more.
* **Session.run_torn**, **Dispatcher.drive_torn** — a drive of such events makes these calls.
-/

namespace MarkupRouting

variable {H σ α : Type}

/-! ### Events -/

namespace Event

/-- An event without its depth and without the name of an element that is left. -/
def mark : Event → Event
  | opened name attributes _ => opened name attributes 0
  | text s _ => text s 0
  | closed _ _ => closed "" 0

/-- Behind so many open elements the events close open elements only. -/
def nested : Nat → List Event → Bool
  | _, [] => true
  | depth, opened _ _ _ :: rest => nested (depth + 1) rest
  | depth, text _ _ :: rest => nested depth rest
  | 0, closed _ _ :: _ => false
  | depth + 1, closed _ _ :: rest => nested depth rest

/-- The texts of several events, one after the other. -/
def texts (events : List Event) : String :=
  String.join (events.filterMap fun
    | text s _ => some s
    | opened _ _ _ | closed _ _ => none)

/-- Events in front of others that close open elements only do so themselves. -/
theorem nested_of_append {depth : Nat} {front back : List Event}
    (h : nested depth (front ++ back) = true) : nested depth front = true := by
  induction front generalizing depth with
  | nil => rfl
  | cons e rest ih =>
      cases e with
      | opened name attributes k => exact ih h
      | text s k => exact ih h
      | closed name k =>
          cases depth with
          | zero => exact h
          | succ depth => exact ih h

end Event

/-! ### Rows -/

namespace Forest

/-- One row behind another. -/
def append : Forest → Forest → Forest
  | done, back => back
  | text s rest, back => text s (rest.append back)
  | element name attributes inside rest, back => element name attributes inside (rest.append back)

/-- The events of a row put together are those of its parts, one behind the other. -/
theorem events_append (depth : Nat) (front back : Forest) :
    (front.append back).events depth = front.events depth ++ back.events depth := by
  induction front with
  | done => rfl
  | text s rest ih => rw [append, events, ih, events, List.cons_append]
  | element name attributes inside rest _ ih =>
      rw [append, events, ih, events, List.cons_append, List.append_assoc, List.cons_append]

/-- The calls for a row put together are those for its parts; the names of the first part come
before the second one. -/
theorem visits_append (book : RuleBook H) (path before : List String) (front back : Forest) :
    (front.append back).visits book path before =
      front.visits book path before ++ back.visits book path (before ++ front.names) := by
  induction front generalizing before with
  | done => rw [append, visits, names, List.nil_append, List.append_nil]
  | text s rest ih => exact ih before
  | element name attributes inside rest _ ih =>
      simp only [append, visits, names, ih, List.append_assoc, List.singleton_append]

/-- The depth at which a row stands is nothing but a remark. -/
theorem mark_events (depth depth' : Nat) (forest : Forest) :
    (forest.events depth).map Event.mark = (forest.events depth').map Event.mark := by
  induction forest generalizing depth depth' with
  | done => rfl
  | text s rest ih => exact congrArg (Event.text s 0 :: ·) (ih depth depth')
  | element name attributes inside rest ihInside ihRest =>
      rw [events, events, List.map_cons, List.map_cons, List.map_append, List.map_append,
        List.map_cons, List.map_cons, ihInside (depth + 1) (depth' + 1), ihRest depth depth']
      rfl

/-- The events are those of the row, whatever depths they carry and whatever names the ends of
elements carry. -/
def Spelled (forest : Forest) (events : List Event) : Prop :=
  events.map Event.mark = (forest.events 0).map Event.mark

end Forest

/-! ### Documents up to some point -/

/-- An open element, with the row in front of it. -/
structure Level where
  /-- What was read around the element before it was entered. -/
  row : Forest
  /-- The name of the element. -/
  name : String
  /-- Its attributes in order. -/
  attributes : Table Value
  deriving Repr, Inhabited

namespace Level

/-- The names of open elements from the root down. -/
def path : List Level → List String
  | [] => []
  | l :: around => path around ++ [l.name]

/-- The events up to the point at which the innermost element is entered. -/
def events : List Level → List Event
  | [] => []
  | l :: around =>
    events around ++ (l.row.events around.length ++
      [.opened l.name l.attributes (around.length + 1)])

/-- The calls for entering an element. -/
def entered (book : RuleBook H) (l : Level) (around : List Level) : List (Visit H) :=
  book.visits .opening (path around ++ [l.name])
    (.opening (noticeOf (path around) l.row.names l.name l.attributes))

/-- The calls for leaving an element. -/
def left (book : RuleBook H) (l : Level) (around : List Level) (inside : Forest) :
    List (Visit H) :=
  book.visits .closing (path around ++ [l.name])
    (.closing (book.node (path around) l.row.names l.name l.attributes inside))

/-- The calls that are made up to the point at which the innermost element was entered. -/
def visits (book : RuleBook H) : List Level → List (Visit H)
  | [] => []
  | l :: around =>
    visits book around ++ (l.row.visits book (path around) [] ++ l.entered book around)

end Level

/-- A document up to some point: the row that the point is in, and around it the open elements with
the rows in front of them. Events that leave open elements only spell such a beginning, whatever
comes behind it. -/
structure Torn where
  /-- The row that the point is in. -/
  row : Forest
  /-- The open elements, the innermost one first. -/
  around : List Level
  deriving Repr, Inhabited

namespace Torn

/-- The events up to the point. -/
def events (t : Torn) : List Event := Level.events t.around ++ t.row.events t.around.length

/-- The calls that are made up to the point. -/
def visits (book : RuleBook H) (t : Torn) : List (Visit H) :=
  Level.visits book t.around ++ t.row.visits book (Level.path t.around) []

/-- The document up to the point behind one more event. A text and an element that is entered come
at the end of the row; an element that is left goes into the row around it. Where no element is open
none is left. -/
def snoc (t : Torn) : Event → Torn
  | .opened name attributes _ => ⟨.done, ⟨t.row, name, attributes⟩ :: t.around⟩
  | .text s _ => ⟨t.row.append (.text s .done), t.around⟩
  | .closed _ _ =>
    match t.around with
    | [] => t
    | l :: around => ⟨l.row.append (.element l.name l.attributes t.row .done), around⟩

/-- The calls that one more event leads to. -/
def added (book : RuleBook H) (t : Torn) : Event → List (Visit H)
  | .opened name attributes _ => Level.entered book ⟨t.row, name, attributes⟩ t.around
  | .text _ _ => []
  | .closed _ _ =>
    match t.around with
    | [] => []
    | l :: around => l.left book around t.row

/-- The document that events spell. -/
def ofEvents (events : List Event) : Torn := events.foldl snoc ⟨.done, []⟩

/-- Events that come one after the other are spelled one after the other. -/
theorem ofEvents_concat (events : List Event) (e : Event) :
    ofEvents (events ++ [e]) = (ofEvents events).snoc e := by
  rw [ofEvents, List.foldl_append]
  rfl

/-- One event more leads to these calls. -/
theorem visits_snoc (book : RuleBook H) (t : Torn) (e : Event) :
    (t.snoc e).visits book = t.visits book ++ t.added book e := by
  cases e with
  | opened name attributes depth =>
      simp only [snoc, added, visits, Level.visits, Forest.visits, List.append_assoc,
        List.append_nil]
  | text s depth =>
      simp only [snoc, added, visits, Forest.visits_append, Forest.visits, List.append_nil]
  | closed name depth =>
      obtain ⟨row, around⟩ := t
      cases around with
      | nil => exact (List.append_nil _).symm
      | cons l around =>
          simp only [snoc, added, visits, Level.visits, Level.entered, Level.left, Level.path,
            Forest.visits_append, Forest.visits, List.append_assoc, List.append_nil,
            List.nil_append]

/-- One event more is spelled behind the others, as long as it leaves an open element only. -/
theorem mark_snoc (t : Torn) {e : Event} {rest : List Event}
    (h : Event.nested t.around.length (e :: rest) = true) :
    (t.snoc e).events.map Event.mark = t.events.map Event.mark ++ [e.mark] ∧
      Event.nested (t.snoc e).around.length rest = true := by
  cases e with
  | opened name attributes depth =>
      refine ⟨?_, h⟩
      simp [snoc, events, Level.events, Forest.events, Event.mark]
  | text s depth =>
      refine ⟨?_, h⟩
      simp [snoc, events, Forest.events_append, Forest.events, Event.mark]
  | closed name depth =>
      obtain ⟨row, around⟩ := t
      cases around with
      | nil => cases h
      | cons l around =>
          refine ⟨?_, h⟩
          simp [snoc, events, Level.events, Forest.events_append, Forest.events, Event.mark]

/-- What events spell has those events. -/
theorem mark_ofEvents {events : List Event} (h : Event.nested 0 events = true) :
    (ofEvents events).events.map Event.mark = events.map Event.mark := by
  have hfrom : ∀ (events : List Event) (t : Torn),
      Event.nested t.around.length events = true →
        (events.foldl snoc t).events.map Event.mark =
          t.events.map Event.mark ++ events.map Event.mark := by
    intro events
    induction events with
    | nil => exact fun t _ => (List.append_nil _).symm
    | cons e rest ih =>
        intro t h
        obtain ⟨hmark, hnested⟩ := t.mark_snoc h
        rw [List.foldl_cons, ih _ hnested, hmark, List.append_assoc, List.map_cons,
          List.singleton_append]
  exact hfrom events ⟨.done, []⟩ h

/-- Events that leave everything they enter spell a row. -/
theorem spelled_row {events : List Event} (hnested : Event.nested 0 events = true)
    (hclosed : (ofEvents events).around = []) : (ofEvents events).row.Spelled events := by
  have hmark := mark_ofEvents hnested
  rw [Torn.events, hclosed] at hmark
  exact hmark.symm

/-- Where the innermost element was entered the events begin with those up to there. -/
theorem events_cons (row : Forest) (l : Level) (around : List Level) :
    (⟨row, l :: around⟩ : Torn).events =
      (⟨l.row, around⟩ : Torn).events ++
        .opened l.name l.attributes (around.length + 1) :: row.events (around.length + 1) := by
  simp [events, Level.events]

end Torn

/-! ### Reading -/

namespace Session

variable {b : Behavior H σ} {view : Visit H → α} {s : Session H σ} {book : RuleBook H}
  {path before : List String}

/-- What a drive does not look at makes no difference. -/
theorem run_mark (b : Behavior H σ) {events events' : List Event}
    (h : events.map Event.mark = events'.map Event.mark) (s : Session H σ) (feed : Feed) :
    s.run b (Feed.afterEvents events feed) = s.run b (Feed.afterEvents events' feed) := by
  -- each event is taken as its mark is
  have hmark : ∀ (events : List Event) (s : Session H σ),
      s.run b (Feed.afterEvents events feed) =
        s.run b (Feed.afterEvents (events.map Event.mark) feed) := by
    intro events
    induction events with
    | nil => exact fun s => rfl
    | cons e rest ih =>
        intro s
        have htake : s.take b (.event e) = s.take b (.event e.mark) := by cases e <;> rfl
        have hcons : ∀ (e : Event) (rest : List Event), Feed.afterEvents (e :: rest) feed =
            .item (.event e) (Feed.afterEvents rest feed) := fun _ _ => rfl
        rw [List.map_cons, hcons, hcons, Session.run, Session.run, htake]
        simp only [ih]
  rw [hmark events, h, ← hmark events']

/-- An element is entered: its open handlers are called. -/
theorem reads_opened (hb : b.Returns) (hview : Visit.Fair b view) (hgoing : s.stopPath = none)
    (h : s.stack.At book path before) (name : String) (attributes : Table Value) (depth : Nat) :
    ∃ s', Leads b s [.opened name attributes depth] s' ∧ s'.stopPath = none ∧
      s'.stack.At book (path ++ [name]) [] ∧
      s'.seen view = ((book.visits .opening (path ++ [name])
        (.opening (noticeOf path before name attributes))).map view).reverse ++ s.seen view := by
  obtain ⟨haround, -⟩ := h.around name
  obtain ⟨s₁, f, hdispatch, hgoing₁, hstack₁, hstands, hsound, hcounts, -, -, hseen₁⟩ :=
    enter_at (s := { s with pulled := s.pulled + 1, tally := s.tally.took }) hb hview h hgoing name
      attributes
  obtain ⟨s', hleads, hgoing', hstack', hseen'⟩ :=
    leads_event view (e := .opened name attributes depth) hdispatch hgoing₁
  refine ⟨s', hleads, hgoing', ?_, hseen'.trans hseen₁⟩
  rw [hstack', hstack₁]
  exact haround.push hstands hsound hcounts

/-- The elements around a point are entered, with everything in front of them. -/
theorem run_levels (hb : b.Returns) (hview : Visit.Fair b view) (around : List Level)
    (hgoing : s.stopPath = none) (h : s.stack.At book [] []) :
    ∃ s', Leads b s (Level.events around) s' ∧ s'.stopPath = none ∧
      s'.stack.At book (Level.path around) [] ∧
      s'.seen view = ((Level.visits book around).map view).reverse ++ s.seen view := by
  induction around with
  | nil => exact ⟨s, fun _ => rfl, hgoing, h, rfl⟩
  | cons l around ih =>
      obtain ⟨s₁, hleads₁, hgoing₁, hplace₁, hseen₁⟩ := ih
      obtain ⟨s₂, hleads₂, hreads₂⟩ := run_forest hb hview l.row around.length hgoing₁ hplace₁
      obtain ⟨s₃, hleads₃, hgoing₃, hplace₃, hseen₃⟩ :=
        reads_opened hb hview hreads₂.going hreads₂.place l.name l.attributes (around.length + 1)
      refine ⟨s₃, hleads₁.append (hleads₂.append hleads₃), hgoing₃, hplace₃, ?_⟩
      rw [hseen₃, hreads₂.seen_eq, hseen₁, Level.visits, Level.entered]
      simp

/-- **A document is read up to some point.** -/
theorem run_torn (hb : b.Returns) (hview : Visit.Fair b view) (t : Torn)
    (hgoing : s.stopPath = none) (h : s.stack.At book [] []) :
    ∃ s', Leads b s t.events s' ∧ s'.stopPath = none ∧
      s'.seen view = ((t.visits book).map view).reverse ++ s.seen view := by
  obtain ⟨s₁, hleads₁, hgoing₁, hplace₁, hseen₁⟩ := run_levels hb hview t.around hgoing h
  obtain ⟨s₂, hleads₂, hreads₂⟩ := run_forest hb hview t.row t.around.length hgoing₁ hplace₁
  refine ⟨s₂, hleads₁.append hleads₂, hreads₂.going, ?_⟩
  rw [hreads₂.seen_eq, hseen₁, Torn.visits, List.map_append, List.reverse_append, List.append_assoc]

end Session

/-! ### Drives -/

/-- Handlers that do nothing. -/
def Behavior.still : Behavior H σ := fun _ w => .finish w

/-- Handlers that do nothing return. -/
theorem Behavior.still_returns : (still : Behavior H σ).Returns := fun _ _ _ => ⟨rfl, rfl⟩

/-- Handlers that do nothing leave elements as they are. -/
theorem Behavior.still_leaves : (still : Behavior H σ).LeavesElements := fun _ _ _ => rfl

namespace Dispatcher

variable {b : Behavior H σ}

/-- The calls of a drive are those that are made while its feed is read. -/
theorem calls_drive_run {d : Dispatcher H} (hidle : d.driving = false) (b : Behavior H σ)
    (t : Markup.Tokenizer) (around : Surroundings) (typeName : String) (feed : Feed)
    (closable : Bool) (world : σ) :
    (d.drive b t around (.items typeName feed closable) world).1.calls =
      ((d.engaged.session around (.items typeName feed closable) world).run b
        feed).1.calls.reverse := by
  obtain ⟨_, _, _, _, _, hended⟩ :=
    runSession_eq b (d.engaged.session around (.items typeName feed closable) world) feed
  rw [drive_items d hidle]
  dsimp only
  rw [calls_outcome, hended]

/-- What a drive does not look at makes no difference to it. -/
theorem drive_mark {d : Dispatcher H} (hidle : d.driving = false) (b : Behavior H σ)
    (t : Markup.Tokenizer) (around : Surroundings) (typeName : String) {events events' : List Event}
    (h : events.map Event.mark = events'.map Event.mark) (closable : Bool) (world : σ) :
    d.drive b t around (.items typeName (.ofItems (events.map .event)) closable) world =
      d.drive b t around (.items typeName (.ofItems (events'.map .event)) closable) world := by
  have hrun := Session.run_mark b h
    (d.engaged.session around (.items typeName (.ofItems (events.map .event)) closable) world) .done
  rw [drive_items d hidle, drive_items d hidle, runSession, runSession]
  exact congrArg (fun r : Session H σ × Option Fault =>
    (outcome ((r.1.conclude r.2).1.sample "end") (r.1.conclude r.2).2 around.elapsed closable,
      { d with ledger := ((r.1.conclude r.2).1.sample "end").ledger })) hrun

/-- Whatever a drive is given, of events that leave open elements only its session makes the calls
that are read off what the events spell. -/
theorem seen_torn (view : Visit H → α) (hview : Visit.Fair b view) (d : Dispatcher H)
    (hb : b.Returns) (around : Surroundings) (source : Source) (world : σ) {events : List Event}
    (hnested : Event.nested 0 events = true) :
    ((d.engaged.session around source world).run b (.afterEvents events .done)).1.seen view =
      (((Torn.ofEvents events).visits d.book).map view).reverse := by
  obtain ⟨hstack, hgoing, hseen⟩ := d.session_begins view around source world
  obtain ⟨s, hleads, -, hseen'⟩ :=
    Session.run_torn hb hview (Torn.ofEvents events) hgoing (hstack ▸ at_ofBook d.book)
  have hrun :
      (d.engaged.session around source world).run b (.afterEvents events .done) = (s, none) :=
    (Session.run_mark b (Torn.mark_ofEvents hnested).symm _ .done).trans (hleads .done)
  rw [hrun, hseen', hseen, List.append_nil]

/-- **A drive follows the document as far as it goes.** Of events that leave open elements only,
with handlers that return and ask for no stop, a drive makes the calls that are read off what the
events spell. -/
theorem drive_torn (view : Visit H → α) (hview : Visit.Fair b view) (d : Dispatcher H)
    (hidle : d.driving = false) (hb : b.Returns) (t : Markup.Tokenizer) (around : Surroundings)
    (typeName : String) {events : List Event} (hnested : Event.nested 0 events = true)
    (closable : Bool) (world : σ) :
    (d.drive b t around (.items typeName (.ofItems (events.map .event)) closable)
        world).1.calls.map (fun c => view c.visit) =
      ((Torn.ofEvents events).visits d.book).map view := by
  have hseen := seen_torn view hview d hb around
    (.items typeName (.ofItems (events.map .event)) closable) world hnested
  rw [calls_drive_run hidle, List.map_reverse]
  exact (congrArg List.reverse hseen).trans (List.reverse_reverse _)

end Dispatcher

end MarkupRouting
