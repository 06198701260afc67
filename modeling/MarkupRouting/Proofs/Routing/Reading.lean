import MarkupRouting.Proofs.Routing.Visits
import MarkupRouting.Routing.Dispatcher

/-!
# Reading whole documents

A drive of the events of a document makes the calls that are read off the document as a whole, as
long as the handlers return and ask for no stop. What the handlers are given is what the document
says as well, as long as they leave it as it is.

* **Feed.afterEvents_append** — events in front of a feed, in two parts.
* **Session.Reads** — what reading a part of a document at one place does; **Reads.trans** is one
  part after the other.
* **Session.reads_text**, **reads_element**, **run_forest** — a text, an element and everything in a
  row are read.
* **Dispatcher.drive_forest**, **drive_visits** — a whole document is driven.
-/

namespace MarkupRouting

variable {H σ α : Type}

/-- Events in front of events in front of a feed. -/
theorem Feed.afterEvents_append (front back : List Event) (rest : Feed) :
    afterEvents (front ++ back) rest = afterEvents front (afterEvents back rest) := by
  rw [afterEvents, List.map_append, after, List.foldr_append]
  rfl

namespace Session

variable {b : Behavior H σ} {view : Visit H → α} {s s' : Session H σ} {book : RuleBook H}
  {path before after : List String}

/-! ### Events -/

/-- The events lead from one session to the other, whatever comes after them. A row of a document
leads from the place in front of it to the place behind it; this is what the induction over the
document is about. -/
def Leads (b : Behavior H σ) (s : Session H σ) (events : List Event) (s' : Session H σ) : Prop :=
  ∀ feed, s.run b (Feed.afterEvents events feed) = s'.run b feed

/-- Events that come in turn lead from the first session to the last one. -/
theorem Leads.append {s₁ s₂ s₃ : Session H σ} {front back : List Event} (h₁ : Leads b s₁ front s₂)
    (h₂ : Leads b s₂ back s₃) : Leads b s₁ (front ++ back) s₃ := by
  intro feed
  rw [Feed.afterEvents_append, h₁, h₂]

/-- Where an event does not end the drive it leads on, and nothing else happens to the stack and to
the calls made. -/
theorem leads_event (view : Visit H → α) {e : Event} {s₁ : Session H σ}
    (hdispatch : ({ s with pulled := s.pulled + 1, tally := s.tally.took } : Session H σ).dispatch b
      (.event e) = (s₁, none)) (hgoing : s₁.stopPath = none) :
    ∃ s', Leads b s [e] s' ∧ s'.stopPath = none ∧ s'.stack = s₁.stack ∧
      s'.seen view = s₁.seen view := by
  obtain ⟨monitor, records, hsample⟩ := s₁.maybeSample_eq
  have htake : s.take b (.event e) = ({ s₁ with monitor, records }, none) := by
    rw [Session.take, hdispatch, ← hsample]
  have hgoes : ({ s₁ with monitor, records } : Session H σ).stopped = false := by
    rw [stopped, hgoing]
    rfl
  refine ⟨{ s₁ with monitor, records }, fun feed => ?_, hgoing, rfl, rfl⟩
  have hfeed : Feed.afterEvents [e] feed = .item (.event e) feed := rfl
  rw [hfeed, Session.run, htake]
  simp only [hgoes, Bool.false_eq_true, ↓reduceIte]

/-- A text is held back where an element is open to hold it. -/
theorem hear_eq (view : Visit H → α) (s : Session H σ) (text : String) :
    (s.hear text).stack = s.stack.mapTop (·.addText text) ∧ (s.hear text).stopPath = s.stopPath ∧
      (s.hear text).seen view = s.seen view := by
  unfold Session.hear
  by_cases hempty : s.stack.frames.isEmpty = true
  · have hstack : s.stack.mapTop (·.addText text) = s.stack := by
      rw [Stack.mapTop, List.isEmpty_iff.mp hempty]
    rw [if_pos hempty, hstack]
    split
    · exact ⟨rfl, rfl, rfl⟩
    · exact ⟨rfl, rfl, rfl⟩
  · rw [if_neg hempty]
    exact ⟨rfl, rfl, rfl⟩

/-! ### Parts of a document -/

/-- What reading a part of a document does at one place: with `forest` before it and `rest` behind
it still to come, these calls are made, and what will stand in the node of the innermost open
element stays the same, as far as handlers leave elements as they are. -/
structure Reads (b : Behavior H σ) (view : Visit H → α) (book : RuleBook H) (path : List String)
    (before : List String) (forest : Forest) (s : Session H σ) (visits : List (Visit H))
    (after : List String) (rest : Forest) (s' : Session H σ) : Prop where
  /-- The drive goes on. -/
  going : s'.stopPath = none
  /-- The place behind the part. -/
  place : s'.stack.At book path after
  /-- The elements around it are still open. -/
  grown : s.stack.Grown s'.stack
  /-- What will stand in the node around it. -/
  filled : b.LeavesElements → s.stack.Edged before →
    s'.stack.Edged after ∧
      s'.stack.total book path after rest = s.stack.total book path before forest
  /-- The calls made. -/
  seen_eq : s'.seen view = (visits.map view).reverse ++ s.seen view

namespace Reads

variable {forest forest' forest'' : Forest} {s₁ s₂ s₃ : Session H σ}
  {visits visits' : List (Visit H)} {middle : List String}

/-- Nothing is read. -/
theorem refl (hgoing : s.stopPath = none) (h : s.stack.At book path before) :
    Reads b view book path before forest s [] before forest s :=
  ⟨hgoing, h, .refl s.stack, fun _ hedge => ⟨hedge, rfl⟩, rfl⟩

/-- One part is read after the other. -/
theorem trans (h₁ : Reads b view book path before forest s₁ visits middle forest' s₂)
    (h₂ : Reads b view book path middle forest' s₂ visits' after forest'' s₃) :
    Reads b view book path before forest s₁ (visits ++ visits') after forest'' s₃ := by
  refine ⟨h₂.going, h₂.place, h₁.grown.trans h₂.grown, fun hleaves hedge => ?_, ?_⟩
  · obtain ⟨hedge', htotal⟩ := h₁.filled hleaves hedge
    obtain ⟨hedge'', htotal'⟩ := h₂.filled hleaves hedge'
    exact ⟨hedge'', htotal'.trans htotal⟩
  · rw [h₂.seen_eq, h₁.seen_eq, List.map_append, List.reverse_append, List.append_assoc]

end Reads

/-- When everything inside an element is read, what stands in its node is what the document says. -/
theorem Reads.contents_flush {around : Stack H} {f g : Frame H} {name : String}
    {attributes : Table Value} {inside : Forest} {visits : List (Visit H)}
    (h : Reads b view book (path ++ [name]) [] inside s visits after .done s')
    (hs : s.stack = around.push f) (hs' : s'.stack = around.push g) (hgrown : f.Grown g)
    (hleaves : b.LeavesElements) (hf : f.Begun book path before name attributes) :
    g.attributes = attributes ∧
      (g.materializing = true → (g.flush true).contents.map List.reverse =
        some (inside.contents book (path ++ [name]) [] "")) := by
  have hedge : s.stack.Edged [] := by
    intro f' hf'
    rw [hs] at hf'
    exact Option.some.inj hf' ▸ hf.edged
  obtain ⟨hedge', htotal⟩ := h.filled hleaves hedge
  rw [hs'] at hedge'
  rw [hs, hs'] at htotal
  refine ⟨hgrown.attributes_eq.trans hf.attributes_eq, fun hbuilt => ?_⟩
  rw [Frame.contents_flush_done (hgrown.kin.stands hf.stands).mode_eq (hedge' g rfl)]
  exact htotal.trans (hf.total_eq (hgrown.kin.materializing_eq ▸ hbuilt) inside)

/-- A text is read: no handler is called. -/
theorem reads_text (b : Behavior H σ) (view : Visit H → α) (hgoing : s.stopPath = none)
    (h : s.stack.At book path before) (text : String) (depth : Nat) (rest : Forest) :
    ∃ s', Leads b s [.text text depth] s' ∧
      Reads b view book path before (.text text rest) s [] before rest s' := by
  let s₀ : Session H σ := { s with pulled := s.pulled + 1, tally := s.tally.took }
  obtain ⟨hstack, hstop, hseen⟩ := hear_eq view s₀ text
  obtain ⟨s', hleads, hgoing', hstack', hseen'⟩ := leads_event view (b := b) (s := s)
    (e := .text text depth) rfl (hstop.trans hgoing)
  obtain ⟨hplace, hgrown, hedged, htotal⟩ := h.addText text rest
  have hsame : s'.stack = s.stack.mapTop (·.addText text) := hstack'.trans hstack
  refine ⟨s', hleads, hgoing', ?_, ?_, fun _ hedge => ?_, hseen'.trans hseen⟩
  · rw [hsame]
    exact hplace
  · rw [hsame]
    exact hgrown
  · rw [hsame]
    exact ⟨hedged hedge, htotal⟩

/-- An element is read: its open handlers are called, everything inside it is read, and its close
handlers are called. -/
theorem reads_element (hb : b.Returns) (hview : Visit.Fair b view) (name : String)
    (attributes : Table Value) (inside : Forest) (depth : Nat)
    (hinside : ∀ s : Session H σ, s.stopPath = none → s.stack.At book (path ++ [name]) [] →
      ∃ s', Leads b s (inside.events (depth + 1)) s' ∧
        Reads b view book (path ++ [name]) [] inside s (inside.visits book (path ++ [name]) [])
          inside.names .done s')
    (hgoing : s.stopPath = none) (h : s.stack.At book path before) (rest : Forest) :
    ∃ s', Leads b s (.opened name attributes (depth + 1) ::
        (inside.events (depth + 1) ++ [.closed name (depth + 1)])) s' ∧
      Reads b view book path before (.element name attributes inside rest) s
        (book.visits .opening (path ++ [name]) (.opening (noticeOf path before name attributes)) ++
          inside.visits book (path ++ [name]) [] ++
          book.visits .closing (path ++ [name])
            (.closing (book.node path before name attributes inside)))
        (before ++ [name]) rest s' := by
  obtain ⟨haround, hgrown⟩ := h.around name
  -- the element is entered
  obtain ⟨s₁, f, hdispatch₁, hgoing₁, hstack₁, hstands, hsound, hcounts, hbuilding, hbegun,
      hseen₁⟩ :=
    enter_at (s := { s with pulled := s.pulled + 1, tally := s.tally.took }) hb hview h hgoing name
      attributes
  obtain ⟨s₂, hleads₂, hgoing₂, hstack₂, hseen₂⟩ := leads_event view
    (e := .opened name attributes (depth + 1)) hdispatch₁ hgoing₁
  rw [hstack₁] at hstack₂
  have hplace₂ : s₂.stack.At book (path ++ [name]) [] := by
    rw [hstack₂]
    exact haround.push hstands hsound hcounts
  -- everything inside it is read
  obtain ⟨s₃, hleads₃, hreads₃⟩ := hinside s₂ hgoing₂ hplace₂
  obtain ⟨g, hgrew, hstack₃⟩ := Stack.Grown.of_push (hstack₂ ▸ hreads₃.grown)
  have hbuilding' : (s.stack.around name).building = true → g.materializing = true := by
    intro hbuilt
    rw [hgrown.building_eq] at hbuilt
    exact hgrew.kin.materializing_eq.trans (hbuilding hbuilt)
  -- the element is left
  obtain ⟨s₄, n, hdispatch₄, hgoing₄, hstack₄, hn, hseen₄⟩ :=
    leave_at (s := { s₃ with pulled := s₃.pulled + 1, tally := s₃.tally.took }) hb hview hstack₃
      haround.sound (hgrew.kin.stands hstands) (hgrew.kin.sound hsound) hbuilding' hreads₃.going
      fun hleaves => hreads₃.contents_flush hstack₂ hstack₃ hgrew hleaves (hbegun hleaves)
  obtain ⟨s', hleads', hgoing', hstack', hseen'⟩ := leads_event view
    (e := .closed name (depth + 1)) hdispatch₄ hgoing₄
  obtain ⟨hplace', hgrown', hfilled⟩ := h.joined name n
  rw [← hstack₄, ← hstack'] at hplace' hgrown' hfilled
  refine ⟨s', (hleads₂.append hleads₃).append hleads', hgoing', hplace', hgrown',
    fun hleaves hedge => ?_, ?_⟩
  · refine hfilled attributes inside rest (fun hbuilt => ?_) hedge
    rw [← hgrown.building_eq] at hbuilt
    exact hn hleaves hbuilt
  · rw [hseen', hseen₄]
    have hseen₃ : ({ s₃ with pulled := s₃.pulled + 1, tally := s₃.tally.took } :
        Session H σ).seen view = s₃.seen view := rfl
    rw [hseen₃, hreads₃.seen_eq, hseen₂, hseen₁]
    simp [seen]

/-- **Everything in a row is read.** -/
theorem run_forest (hb : b.Returns) (hview : Visit.Fair b view) (forest : Forest) (depth : Nat)
    (hgoing : s.stopPath = none) (h : s.stack.At book path before) :
    ∃ s', Leads b s (forest.events depth) s' ∧
      Reads b view book path before forest s (forest.visits book path before)
        (before ++ forest.names) .done s' := by
  induction forest generalizing s path before depth with
  | done =>
      rw [Forest.names, List.append_nil]
      exact ⟨s, fun _ => rfl, .refl hgoing h⟩
  | text text rest ih =>
      obtain ⟨s₁, hleads₁, hreads₁⟩ := reads_text b view hgoing h text depth rest
      obtain ⟨s₂, hleads₂, hreads₂⟩ := ih depth hreads₁.going hreads₁.place
      exact ⟨s₂, hleads₁.append hleads₂, hreads₁.trans hreads₂⟩
  | element name attributes inside rest ihInside ihRest =>
      obtain ⟨s₁, hleads₁, hreads₁⟩ := reads_element hb hview name attributes inside depth
        (fun s hgoing h => ihInside (depth + 1) hgoing h) hgoing h rest
      obtain ⟨s₂, hleads₂, hreads₂⟩ := ihRest depth hreads₁.going hreads₁.place
      refine ⟨s₂, ?_, ?_⟩
      · have hevents : (Forest.element name attributes inside rest).events depth =
            .opened name attributes (depth + 1) ::
              (inside.events (depth + 1) ++ [.closed name (depth + 1)]) ++ rest.events depth := by
          rw [List.cons_append, List.append_assoc]
          rfl
        rw [hevents]
        exact hleads₁.append hleads₂
      · have hnames : before ++ (Forest.element name attributes inside rest).names =
            before ++ [name] ++ rest.names := by
          rw [List.append_assoc]
          rfl
        rw [hnames]
        exact hreads₁.trans hreads₂

/-- Where no element is open and nobody asked for a stop, nothing is left to be done at the end. -/
theorem conclude_of_closed (hframes : s.stack.frames = []) (hgoing : s.stopPath = none) :
    s.conclude none = (s, none) := by
  have hstuck : s.isStuck none = false := by rw [isStuck, hframes]; rfl
  have hstopped : s.stopped = false := by rw [stopped, hgoing]; rfl
  have hfed : s.endFed = s := by rw [endFed, hframes]; rfl
  rw [conclude, hstuck, hstopped, hfed]
  rfl

end Session

/-! ### Drives -/

namespace Dispatcher

variable {b : Behavior H σ}

/-- A drive begins above the root, with no call made. -/
theorem session_begins (view : Visit H → α) (d : Dispatcher H) (around : Surroundings)
    (source : Source) (world : σ) :
    (d.engaged.session around source world).stack = Stack.ofBook d.book ∧
      (d.engaged.session around source world).stopPath = none ∧
      (d.engaged.session around source world).seen view = [] := by
  unfold Dispatcher.session
  dsimp only
  generalize hstart : Session.tell _ _ _ _ = start
  obtain ⟨_, _, hsample⟩ := start.sample_eq "start"
  rw [hsample, ← hstart]
  exact ⟨rfl, rfl, rfl⟩

/-- Above the root of a document the stack of a book knows where it is. -/
theorem at_ofBook (book : RuleBook H) : (Stack.ofBook book).At book [] [] :=
  ⟨nofun, rfl, rfl, book.modeAt_nil.symm, fun _ => rfl⟩

/-- A drive of the events of a document reads them all. When it is over nothing is open. -/
theorem drive_forest (view : Visit H → α) (hview : Visit.Fair b view) (d : Dispatcher H)
    (hidle : d.driving = false) (hb : b.Returns) (t : Markup.Tokenizer) (around : Surroundings)
    (typeName : String) (forest : Forest) (closable : Bool) (world : σ) :
    let source := Source.items typeName (.ofItems ((forest.events 0).map .event)) closable
    let start := d.engaged.session around source world
    ∃ s monitor records, Session.Leads b start (forest.events 0) s ∧
      Session.Reads b view d.book [] [] forest start (forest.visits d.book [] []) forest.names .done
        s ∧
      d.drive b t around source world =
        (outcome { s with monitor, records } none around.elapsed closable,
          { d.engaged with driving := false, ledger := s.ledger }) := by
  intro source start
  obtain ⟨hstack, hgoing, -⟩ := d.session_begins view around source world
  obtain ⟨s, hleads, hreads⟩ :=
    Session.run_forest hb hview forest 0 hgoing (hstack ▸ at_ofBook d.book)
  have hrun : start.run b (.ofItems ((forest.events 0).map .event)) = (s, none) := hleads .done
  have hframes : s.stack.frames = [] := by
    have hgrown := hreads.grown
    rw [hstack] at hgrown
    generalize s.stack = st at hgrown
    cases hgrown with
    | above pending counts counts' => rfl
  have hconclude := Session.conclude_of_closed hframes hreads.going
  obtain ⟨monitor, records, hsample⟩ := s.sample_eq "end"
  refine ⟨s, monitor, records, hleads, hreads, ?_⟩
  have hsession : runSession b start (.ofItems ((forest.events 0).map .event)) =
      ({ s with monitor, records }, none) := by
    rw [runSession, hrun]
    dsimp only
    rw [hconclude, ← hsample]
  rw [drive, hidle]
  exact congrArg (fun r : Session H σ × Option Fault =>
    (outcome r.1 r.2 around.elapsed closable,
      { d.engaged with driving := false, ledger := r.1.ledger })) hsession

/-- A drive of the events of a document is completed, and its calls are seen to be those that the
document says. -/
theorem drive_seen (view : Visit H → α) (hview : Visit.Fair b view) (d : Dispatcher H)
    (hidle : d.driving = false) (hb : b.Returns) (t : Markup.Tokenizer) (around : Surroundings)
    (typeName : String) (forest : Forest) (closable : Bool) (world : σ) :
    let source := Source.items typeName (.ofItems ((forest.events 0).map .event)) closable
    (∃ report, (d.drive b t around source world).1.result = .ok report ∧ report.completed = true) ∧
      (d.drive b t around source world).1.calls.map (fun c => view c.visit) =
        (forest.visits d.book [] []).map view := by
  intro source
  obtain ⟨-, -, hseen⟩ := d.session_begins view around source world
  obtain ⟨s, monitor, records, -, hreads, hdrive⟩ :=
    drive_forest view hview d hidle hb t around typeName forest closable world
  rw [hdrive]
  refine ⟨⟨_, rfl, ?_⟩, ?_⟩
  · rw [Session.report, Session.stopped, hreads.going]
    rfl
  · have hcalls : s.seen view = ((forest.visits d.book [] []).map view).reverse := by
      rw [hreads.seen_eq, hseen, List.append_nil]
    have hreverse : (outcome { s with monitor, records } none around.elapsed closable).calls.map
        (fun c => view c.visit) = (s.seen view).reverse := List.map_reverse
    rw [hreverse, hcalls, List.reverse_reverse]

/-- **A drive follows the document.** Of the events of a document, with handlers that return, ask
for no stop and leave what they are given as it is, a drive (`RuleDispatcher.drive`) is completed,
and it makes exactly the calls that are read off the document as a whole: for every element the open
handlers of the rules that select its path, in the order of the book, then the calls for everything
inside it, then the close handlers. What each of them is given is the notice or the node that the
document says. -/
theorem drive_visits (d : Dispatcher H) (hidle : d.driving = false) (hb : b.Returns)
    (hleaves : b.LeavesElements) (t : Markup.Tokenizer) (around : Surroundings) (typeName : String)
    (forest : Forest) (closable : Bool) (world : σ) :
    let source := Source.items typeName (.ofItems ((forest.events 0).map .event)) closable
    (∃ report, (d.drive b t around source world).1.result = .ok report ∧ report.completed = true) ∧
      (d.drive b t around source world).1.calls.map Call.visit = forest.visits d.book [] [] := by
  intro source
  obtain ⟨hresult, hvisits⟩ := drive_seen id (.inl hleaves) d hidle hb t around typeName forest
    closable world
  rw [List.map_id] at hvisits
  exact ⟨hresult, hvisits⟩

/-- A rule for elements called `item` that has both handlers. -/
def itemRule : Rule Unit := ⟨⟨"item", [.element "item"], false, 0⟩, some (), some (), .normalize⟩

/-- A dispatcher with that rule. -/
def lister : Dispatcher Unit :=
  { settings := {}, book := { defaultMode := .normalize, rules := [itemRule], next := 1 } }

/-- Handlers that do nothing. -/
def idleHandlers : Behavior Unit Unit := fun _ w => .finish w

/-- A list with one item in it. -/
def shortList : Forest :=
  .element "list" [] (.text " " (.element "item" [("id", .text "1")] (.text " one " .done) .done))
    .done

/-- For a list with one item the handlers are called for the item, and the close handler is given
its text without the blanks at its edges. -/
theorem drive_visits_shortList :
    lister.driving = false ∧ idleHandlers.Returns ∧ idleHandlers.LeavesElements ∧
      (lister.drive idleHandlers ⟨Unit, fun _ => (), fun _ _ => none, fun _ => none⟩
        ⟨"run", fun _ => 0, default⟩
        (.items "list" (.ofItems ((shortList.events 0).map .event)) false) ()).1.calls.map
          Call.visit =
        [⟨(), .opening, itemRule, "/list/item", 2,
            .opening ⟨"item", "/list/item", [("id", .text "1")], 1, 2⟩⟩,
          ⟨(), .closing, itemRule, "/list/item", 2,
            .closing ⟨⟨"item", "/list/item", [("id", .text "1")], .int 1, .normalize⟩,
              [.text "one"]⟩⟩] := by
  have hreturns : idleHandlers.Returns := fun _ _ _ => ⟨rfl, rfl⟩
  have hleaves : idleHandlers.LeavesElements := fun _ _ _ => rfl
  obtain ⟨-, hvisits⟩ := drive_visits lister rfl hreturns hleaves
    ⟨Unit, fun _ => (), fun _ _ => none, fun _ => none⟩ ⟨"run", fun _ => 0, default⟩ "list"
    shortList false ()
  exact ⟨rfl, hreturns, hleaves, hvisits.trans (by rfl)⟩

/-- A dispatcher with two rules for elements called `a`. -/
def doubled : Dispatcher Unit :=
  { settings := {}
    book :=
      { defaultMode := .keep
        rules := [⟨⟨"a", [.element "a"], false, 0⟩, none, some (), .keep⟩,
          ⟨⟨"*", [.any], false, 1⟩, none, some (), .keep⟩]
        next := 2 } }

/-- Handlers that put a text into every node. -/
def appending : Behavior Unit Unit := fun _ w => .append (.text "x") (.finish w)

/-- Handlers that ask for the drive to be stopped. -/
def stopping : Behavior Unit Unit := fun _ w => .stop (.finish w)

/-- It is not enough that handlers return. If they change what they are given, what one of them puts
into a node is given to the next one; if they leave it as it is but ask for a stop, the elements
behind the one where they do are not visited. -/
theorem not_visits_of_returning :
    (¬ ∀ (d : Dispatcher Unit) (b : Behavior Unit Unit), d.driving = false → b.Returns →
        ∀ (t : Markup.Tokenizer) (around : Surroundings) (typeName : String) (forest : Forest)
          (closable : Bool) (world : Unit),
          (d.drive b t around (.items typeName (.ofItems ((forest.events 0).map .event)) closable)
            world).1.calls.map Call.visit = forest.visits d.book [] []) ∧
      ¬ ∀ (d : Dispatcher Unit) (b : Behavior Unit Unit), d.driving = false →
        (∀ (c : Call Unit) (w : Unit) (t : Turn Unit), ((b c w).run t).2.2 = none) →
        b.LeavesElements →
        ∀ (t : Markup.Tokenizer) (around : Surroundings) (typeName : String) (forest : Forest)
          (closable : Bool) (world : Unit),
          (d.drive b t around (.items typeName (.ofItems ((forest.events 0).map .event)) closable)
            world).1.calls.map Call.visit = forest.visits d.book [] [] := by
  constructor
  · intro h
    have hreturns : appending.Returns := by
      intro c w t
      refine ⟨rfl, ?_⟩
      show (t.append (.text "x")).stopPath = t.stopPath
      unfold Turn.append
      split
      · rfl
      · rfl
    have hvisits := h doubled appending rfl hreturns
      ⟨Unit, fun _ => (), fun _ _ => none, fun _ => none⟩ ⟨"run", fun _ => 0, default⟩ "list"
      (.element "a" [] .done .done) false ()
    have hlengths := congrArg
      (List.map fun v : Visit Unit => v.subject.node?.map fun n => n.contents.length) hvisits
    exact absurd hlengths (by decide)
  · intro h
    have hleaves : stopping.LeavesElements := by
      intro c w t
      show t.stop.frame = t.frame
      unfold Turn.stop
      split
      · rfl
      · rfl
    have hvisits := h doubled stopping rfl (fun _ _ _ => rfl) hleaves
      ⟨Unit, fun _ => (), fun _ _ => none, fun _ => none⟩ ⟨"run", fun _ => 0, default⟩ "list"
      (.element "a" [] .done (.element "a" [] .done .done)) false ()
    exact absurd (congrArg List.length hvisits) (by decide)

end Dispatcher

end MarkupRouting
