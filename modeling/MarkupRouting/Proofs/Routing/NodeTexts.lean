import MarkupRouting.Proofs.Routing.AttributeErasure
import MarkupRouting.Proofs.Routing.DocumentPrefixes
import MarkupRouting.Proofs.Text.Normal

/-!
# The texts of nodes

What the texts of a node are, said of the element as it stands in the document. The texts of an
element are normalised where they stand, each as soon as something else comes, and once more as a
whole when they are asked for, with those of elements inside normalised by modes of their own.

* **Forest.texts**, **Forest.runs** — all text of an element; its own text between the elements
  inside it.
* **Node.Tells** — what a node tells of such texts.
* **Forest.ink_contents**, **applyChars_rawTexts**, **applyChars_fullTexts** — what is put into a
  node, looked at in these three ways.
* **RuleBook.node_tells** — the node of an element tells of the texts of the element.
* **Torn.tells_of_added** — so does the node of an element that one more event leaves.
* **Dispatcher.drive_tells** — so does every node that a close handler is given, as long as handlers
  leave the nodes they are given as they are.
-/

namespace MarkupRouting

variable {H σ : Type}

/-! ### Texts in a document -/

namespace Forest

/-- All texts in a row and inside its elements, one after the other. -/
def texts : Forest → String
  | done => ""
  | text s rest => s ++ rest.texts
  | element _ _ inside rest => inside.texts ++ rest.texts

/-- The texts in a row between its elements, where some text came before: what stands before the
first element, behind the last one and between two of them. -/
def runs (run : String) : Forest → List String
  | done => [run]
  | text s rest => rest.runs (run ++ s)
  | element _ _ _ rest => run :: rest.runs ""

end Forest

namespace Event

/-- The texts of events put together are those of their parts. -/
theorem texts_append (front back : List Event) :
    texts (front ++ back) = texts front ++ texts back := by
  rw [texts, List.filterMap_append, String.join_append]
  rfl

/-- The texts of events are read off one by one. -/
theorem texts_cons (e : Event) (rest : List Event) : texts (e :: rest) = texts [e] ++ texts rest :=
  texts_append [e] rest

/-- Texts are texts at any depth. -/
theorem texts_mark (events : List Event) : texts (events.map mark) = texts events := by
  rw [texts, List.filterMap_map, texts]
  refine congrArg String.join (List.filterMap_congr fun e _ => ?_)
  cases e <;> rfl

end Event

namespace Forest

/-- The texts of a row are those of its events. -/
theorem texts_events (depth : Nat) (forest : Forest) :
    Event.texts (forest.events depth) = forest.texts := by
  induction forest generalizing depth with
  | done => rfl
  | text s rest ih =>
      have hone : Event.texts [.text s depth] = s := by simp [Event.texts, String.join]
      rw [events, Event.texts_cons, hone, ih, texts]
  | element name attributes inside rest ihInside ihRest =>
      rw [events, Event.texts_cons, Event.texts_append, ihInside,
        Event.texts_cons (.closed name (depth + 1)), ihRest, texts]
      simp [Event.texts, String.join]

/-- The texts of a row are those of any events that spell it. -/
theorem Spelled.texts_eq {forest : Forest} {events : List Event} (h : forest.Spelled events) :
    Event.texts events = forest.texts := by
  rw [← Event.texts_mark, h, Event.texts_mark, texts_events]

end Forest

/-! ### Texts in nodes -/

/-- What a mode keeps of several texts, one after the other. -/
theorem TextMode.toList_join_kept (m : TextMode) (runs : List String) :
    (String.join (runs.filter fun run => !(m.trims && Text.isBlankText run))).toList =
      (runs.map fun run => m.kept run.toList).flatten := by
  induction runs with
  | nil => rfl
  | cons run rest ih =>
      rw [List.filter_cons, List.map_cons, List.flatten_cons, ← ih, kept]
      cases hdrops : m.trims && Text.allBlank run.toList with
      | true => simp [Text.isBlankText, hdrops]
      | false => simp [Text.isBlankText, hdrops]

/-- Inside a text a mode that leaves the edges alone may be applied to a part first. -/
theorem TextMode.applyChars_inner {m : TextMode} (h : m.trims = false) (atStart atEnd : Bool)
    (cs part ds : List Char) :
    m.applyChars true true (cs ++ m.applyChars atStart atEnd part ++ ds) =
      m.applyChars true true (cs ++ part ++ ds) := by
  have hedges : m.applyChars atStart atEnd part = m.applyChars false false part := by
    simp [applyChars, h]
  have hkept : m.kept part = part := by simp [kept, h]
  have hpart := m.applyChars_part cs part ds (fun h : false = true => absurd h (by decide))
    fun h : false = true => absurd h (by decide)
  rw [hedges, hpart, hkept]

namespace Content

/-- The texts directly among several contents, one after the other. -/
def rawTexts (cs : List Content) : String := String.join (cs.filterMap text?)

/-- The own texts of contents put together are those of their parts. -/
theorem rawTexts_append (cs ds : List Content) :
    rawTexts (cs ++ ds) = rawTexts cs ++ rawTexts ds := by
  rw [rawTexts, List.filterMap_append, String.join_append]
  rfl

/-- All texts of contents put together are those of their parts. -/
theorem fullTexts_append (cs ds : List Content) :
    fullTexts (cs ++ ds) = fullTexts cs ++ fullTexts ds := by
  induction cs with
  | nil => rw [List.nil_append, fullTexts, String.empty_append]
  | cons c rest ih => rw [List.cons_append, fullTexts, ih, fullTexts, String.append_assoc]

/-- A text that is kept is the text itself. -/
theorem texts_keptText (s : String) : fullTexts (keptText s) = s ∧ rawTexts (keptText s) = s := by
  unfold keptText
  split
  next h =>
    rw [String.isEmpty_iff] at h
    subst h
    exact ⟨rfl, rfl⟩
  next h => simp [fullTexts, fullText, rawTexts, text?, String.join]

/-- There is no element in a text that is kept. -/
theorem node?_keptText (s : String) : (keptText s).filterMap node? = [] := by
  unfold keptText
  split <;> rfl

end Content

namespace Node

/-- What a node tells of the texts of an element: of all text there is in it, and of its own text
between the elements inside it. -/
structure Tells (n : Node) (whole : String) (runs : List String) : Prop where
  /-- Its full text has all characters but blanks, in order. -/
  ink_eq : Text.ink n.fullText.toList = Text.ink whole.toList
  /-- Its text is the element's own text, normalised as a whole; a mode that drops blanks at the
  edges drops the parts that are blank throughout. -/
  text_eq : n.text = n.tag.mode.apply
    (String.join (runs.filter fun run => !(n.tag.mode.trims && Text.isBlankText run))) true true
  /-- Where a mode leaves the edges alone and is that of all elements inside, the full text is all
  text normalised as a whole. -/
  fullText_eq : n.tag.mode.trims = false → (∀ k ∈ n.nodes, k.tag.mode = n.tag.mode) →
    n.fullText = n.tag.mode.apply whole true true

end Node

/-! ### Nodes of elements -/

namespace Forest

/-- What is put into a node has all characters but blanks. -/
theorem ink_contents (book : RuleBook H) (path before : List String) (run : String)
    (forest : Forest) :
    Text.ink (Content.fullTexts (forest.contents book path before run)).toList =
      Text.ink (run ++ forest.texts).toList := by
  induction forest generalizing path before run with
  | done =>
      rw [contents, (Content.texts_keptText _).1, TextMode.toList_apply, TextMode.ink_applyChars,
        texts, String.append_empty]
  | text s rest ih => rw [contents, ih, texts, String.append_assoc]
  | element name attributes inside rest ihInside ihRest =>
      rw [contents, Content.fullTexts_append, (Content.texts_keptText _).1, Content.fullTexts,
        Content.fullText]
      simp only [String.toList_append, Text.ink_append, TextMode.toList_apply,
        TextMode.ink_applyChars, ihInside, ihRest, texts, String.toList_empty,
        List.nil_append]

/-- The texts put into a node, normalised as a whole, are the element's own texts between the
elements inside it normalised as a whole, but for those that a mode drops. -/
theorem applyChars_rawTexts (book : RuleBook H) (path before : List String) (run : String)
    (forest : Forest) (front : List Char) (hfront : before.isEmpty = true → front = []) :
    (book.modeAt path).applyChars true true
        (front ++ (Content.rawTexts (forest.contents book path before run)).toList) =
      (book.modeAt path).applyChars true true
        (front ++ ((forest.runs run).map fun r => (book.modeAt path).kept r.toList).flatten) := by
  induction forest generalizing before run front with
  | done =>
      have hpart := (book.modeAt path).applyChars_part front run.toList [] hfront
        fun _ : true = true => rfl
      simp only [List.append_nil] at hpart
      rw [contents, (Content.texts_keptText _).2, TextMode.toList_apply, hpart, runs]
      simp
  | text s rest ih => exact ih before (run ++ s) front hfront
  | element name attributes inside rest _ ih =>
      have hpart := (book.modeAt path).applyChars_part front run.toList
        (Content.rawTexts (rest.contents book path (before ++ [name]) "")).toList hfront
        fun h : false = true => absurd h (by decide)
      have hrest := ih (before ++ [name]) "" (front ++ (book.modeAt path).kept run.toList) (by simp)
      have hinside : ∀ cs, Content.rawTexts (.element (book.tag path before name attributes)
          (inside.contents book (path ++ [name]) [] "") :: cs) = Content.rawTexts cs := fun _ => rfl
      rw [contents, Content.rawTexts_append, (Content.texts_keptText _).2, hinside,
        String.toList_append, TextMode.toList_apply, ← List.append_assoc, hpart, hrest, runs]
      simp

/-- Where all modes are one that leaves the edges alone, the full texts put into a node, normalised
as a whole, are all text normalised as a whole. -/
theorem applyChars_fullTexts (book : RuleBook H) {m : TextMode} (hm : m.trims = false)
    (path before : List String) (run : String) (forest : Forest) (hmode : book.modeAt path = m)
    (hall : ∀ k ∈ Node.walk ((forest.contents book path before run).filterMap Content.node?),
      k.tag.mode = m) (front : List Char) :
    m.applyChars true true
        (front ++ (Content.fullTexts (forest.contents book path before run)).toList) =
      m.applyChars true true (front ++ run.toList ++ forest.texts.toList) := by
  induction forest generalizing path before run front with
  | done =>
      have hinner := TextMode.applyChars_inner hm before.isEmpty true front run.toList []
      rw [contents, (Content.texts_keptText _).1, TextMode.toList_apply, hmode]
      simpa [texts] using hinner
  | text s rest ih =>
      rw [contents, ih path before (run ++ s) hmode hall, texts]
      simp
  | element name attributes inside rest ihInside ihRest =>
      -- the node of the element inside, and those inside it and behind it, have the mode
      rw [contents, List.filterMap_append, Content.node?_keptText, List.nil_append,
        List.filterMap_cons_some (by rfl), Node.walk, Node.walk_append, List.forall_mem_cons,
        List.forall_mem_append] at hall
      obtain ⟨htag, hinside, hrest⟩ := hall
      have hmode' : book.modeAt (path ++ [name]) = m := htag
      have hchild := ihInside (path ++ [name]) [] "" hmode' hinside []
      have hbehind := ihRest path (before ++ [name]) "" hmode hrest
        (front ++ run.toList ++ inside.texts.toList)
      simp only [List.nil_append, String.toList_empty] at hchild
      rw [contents, Content.fullTexts_append, (Content.texts_keptText _).1, Content.fullTexts,
        Content.fullText, hmode, htag, texts]
      simp only [String.toList_append, TextMode.toList_apply, List.append_assoc,
        String.toList_empty, List.nil_append] at hchild hbehind ⊢
      rw [← hbehind, hchild]
      -- the text in front of the element, then that of the element
      have hrun := TextMode.applyChars_inner hm before.isEmpty false front run.toList
      have hmiddle := TextMode.applyChars_inner hm true true (front ++ run.toList)
        inside.texts.toList
      simp only [List.append_assoc] at hrun hmiddle
      rw [hrun, hmiddle]

end Forest

/-- **The node of an element tells of its texts.** -/
theorem RuleBook.node_tells (book : RuleBook H) (path before : List String) (name : String)
    (attributes : Table Value) (inside : Forest) :
    (book.node path before name attributes inside).Tells inside.texts (inside.runs "") := by
  obtain ⟨m, hm⟩ : ∃ m, book.modeAt (path ++ [name]) = m := ⟨_, rfl⟩
  have htag : (book.node path before name attributes inside).tag.mode = m := hm
  have hfull : (book.node path before name attributes inside).fullText =
      m.apply (Content.fullTexts (inside.contents book (path ++ [name]) [] "")) true true := by
    rw [Node.fullText, Node.toContent, Content.fullText, htag]
    rfl
  constructor
  case ink_eq =>
    rw [hfull, TextMode.toList_apply, TextMode.ink_applyChars, Forest.ink_contents,
      String.empty_append]
  case text_eq =>
    have hraw := Forest.applyChars_rawTexts book (path ++ [name]) [] "" inside [] fun _ => rfl
    rw [Node.text, htag, TextMode.apply, TextMode.apply, m.toList_join_kept, ← hm]
    exact congrArg String.ofList hraw
  case fullText_eq =>
    intro htrims hall
    rw [htag] at htrims hall ⊢
    rw [Node.nodes_eq, List.forall_mem_cons] at hall
    have hwhole := Forest.applyChars_fullTexts book htrims (path ++ [name]) [] "" inside hm
      hall.2 []
    rw [hfull, TextMode.apply, TextMode.apply]
    exact congrArg String.ofList hwhole

/-! ### Texts and attributes -/

mutual

/-- Attributes are no text. -/
theorem Content.fullText_bare : ∀ c : Content, c.bare.fullText = c.fullText
  | .text s => rfl
  | .element tag contents => by
      rw [bare, fullText, fullText, fullTexts_bares]
      rfl

/-- Nor are those of several contents. -/
theorem Content.fullTexts_bares : ∀ cs : List Content, fullTexts (bares cs) = fullTexts cs
  | [] => rfl
  | c :: rest => by rw [bares, fullTexts, fullTexts, fullText_bare, fullTexts_bares]

end

namespace Node

/-- The own text of a node does not depend on attributes. -/
theorem text_bare (n : Node) : n.bare.text = n.text := by
  have hraw : ∀ cs : List Content, (Content.bares cs).filterMap Content.text? =
      cs.filterMap Content.text? := by
    intro cs
    rw [Content.bares_eq_map, List.filterMap_map]
    refine List.filterMap_congr fun c _ => ?_
    cases c <;> rfl
  rw [text, rawText, text, rawText]
  exact congrArg (fun texts => n.tag.mode.apply (String.join texts) true true) (hraw n.contents)

/-- The children of a node without attributes are its children without theirs. -/
theorem children_bare (n : Node) : n.bare.children = n.children.map bare := by
  have hchildren : n.bare.children = (Content.bares n.contents).filterMap Content.node? := rfl
  rw [hchildren, Content.bares_eq_map, List.filterMap_map, children, List.map_filterMap]
  refine List.filterMap_congr fun c _ => ?_
  cases c <;> rfl

/-- A walk through nodes meets the same nodes, attributes left out or not. -/
theorem walk_bare (ns : List Node) : walk (ns.map bare) = (walk ns).map bare := by
  fun_induction walk ns with
  | case1 => rw [List.map_nil, walk]
  | case2 n rest ih =>
      rw [List.map_cons, walk, children_bare, ← List.map_append, ih, List.map_cons]

/-- What a node tells of texts it tells without attributes. -/
theorem tells_bare (n : Node) (whole : String) (runs : List String) :
    n.bare.Tells whole runs ↔ n.Tells whole runs := by
  have hmode : n.bare.tag.mode = n.tag.mode := rfl
  have hfull : n.bare.fullText = n.fullText := by
    rw [fullText, toContent_bare, Content.fullText_bare, fullText]
  have hnodes : (∀ k ∈ n.bare.nodes, k.tag.mode = n.tag.mode) ↔
      ∀ k ∈ n.nodes, k.tag.mode = n.tag.mode := by
    have hwalk : n.bare.nodes = n.nodes.map bare := walk_bare [n]
    rw [hwalk, List.forall_mem_map]
    rfl
  constructor
  · rintro ⟨hink, htext, hwhole⟩
    rw [hfull] at hink hwhole
    rw [text_bare] at htext
    exact ⟨hink, htext, fun htrims hall => hwhole htrims (hnodes.mpr hall)⟩
  · rintro ⟨hink, htext, hwhole⟩
    rw [← hfull] at hink hwhole
    rw [← text_bare] at htext
    exact ⟨hink, htext, fun htrims hall => hwhole htrims (hnodes.mp hall)⟩

end Node

/-! ### Drives -/

/-- A place in the document where an element is left is behind everything inside it. -/
theorem Torn.split_of_closed {events : List Event} (hnested : Event.nested 0 events = true)
    {row : Forest} {l : Level} {around : List Level} (h : ofEvents events = ⟨row, l :: around⟩) :
    ∃ front depth inside, events = front ++ .opened l.name l.attributes depth :: inside ∧
      row.Spelled inside := by
  have hmark := mark_ofEvents hnested
  rw [h, events_cons, List.map_append, List.map_cons, eq_comm, List.map_eq_append_iff] at hmark
  obtain ⟨front, back, rfl, -, hback⟩ := hmark
  rw [List.map_eq_cons_iff] at hback
  obtain ⟨e, inside, rfl, he, hinside⟩ := hback
  cases e with
  | opened name attributes depth =>
      obtain ⟨rfl, rfl, -⟩ := Event.opened.inj he
      exact ⟨front, depth, inside, rfl, hinside.trans (row.mark_events _ 0)⟩
  | text s depth => cases he
  | closed name depth => cases he

/-- Where an event makes a close handler be given a node, it is the end of an element, and the node
tells of the texts in between. -/
theorem Torn.tells_of_added {book : RuleBook H} {events : List Event}
    (hnested : Event.nested 0 events = true) {e : Event} {v : Visit H} {n : Node}
    (hv : v ∈ (ofEvents events).added book e)
    (hsubject : v.subject.bare = (Subject.closing n).bare) :
    ∃ front name attributes depth inside name' depth',
      events = front ++ .opened name attributes depth :: inside ∧ e = .closed name' depth' ∧
        n.tag.name = name ∧
        ∃ row : Forest, row.Spelled inside ∧ n.Tells (Event.texts inside) (row.runs "") := by
  cases e with
  | opened name attributes depth =>
      obtain ⟨r, -, hr⟩ := List.mem_filterMap.mp hv
      obtain ⟨handler, -, rfl⟩ := Option.map_eq_some_iff.mp hr
      cases hsubject
  | text s depth => cases hv
  | closed name' depth' =>
      have hspelled := @split_of_closed events hnested
      generalize ofEvents events = torn at hv hspelled
      obtain ⟨row, levels⟩ := torn
      cases levels with
      | nil => cases hv
      | cons l levels =>
          obtain ⟨front, depth, inside, rfl, hrow⟩ := hspelled rfl
          obtain ⟨r, -, hr⟩ := List.mem_filterMap.mp hv
          obtain ⟨handler, -, rfl⟩ := Option.map_eq_some_iff.mp hr
          have hbare := Subject.closing.inj hsubject
          refine ⟨front, l.name, l.attributes, depth, inside, name', depth', rfl, rfl,
            (congrArg (fun n => n.tag.name) hbare.symm :), row, hrow, ?_⟩
          rw [← Node.tells_bare, ← hbare, Node.tells_bare, hrow.texts_eq]
          exact RuleBook.node_tells ..

namespace Dispatcher

variable {b : Behavior H σ} (d : Dispatcher H) (around : Surroundings) (source : Source) (world : σ)

/-- With handlers that leave nodes as they are, an event leads to calls that are read off what the
events before it spell, as far as attributes are not looked at. -/
theorem run_event (hb : b.KeepsNodes) {front : List Event} {e : Event}
    (hnested : Event.nested 0 (front ++ [e]) = true) :
    ∃ made : List (Call H),
      ((d.engaged.session around source world).run b (.afterEvents (front ++ [e]) .done)).1.calls =
        made ++ ((d.engaged.session around source world).run b (.afterEvents front .done)).1.calls ∧
      made.map (fun c => c.visit.bare) <:+
        (((Torn.ofEvents front).added d.book e).map Visit.bare).reverse := by
  obtain ⟨hgoing, -, -, -⟩ := d.session_fresh around source world
  have hstill : ∀ {events : List Event}, Event.nested 0 events = true →
      ((d.engaged.session around source world).run .still (.afterEvents events .done)).1.seen
          Visit.bare = (((Torn.ofEvents events).visits d.book).map Visit.bare).reverse :=
    seen_torn Visit.bare (.inl Behavior.still_leaves) d Behavior.still_returns around source world
  have hfront := hstill (Event.nested_of_append hnested)
  have hboth := hstill hnested
  rw [Torn.ofEvents_concat, Torn.visits_snoc, List.map_append, List.reverse_append, ← hfront]
    at hboth
  generalize d.engaged.session around source world = s at *
  have hevents : Feed.afterEvents (front ++ [e]) .done =
      Feed.afterEvents front (.afterEvents [e] .done) := Feed.afterEvents_append front [e] .done
  rw [hevents] at hboth ⊢
  rw [Session.run_afterEvents b front _ s hgoing]
  split
  next hgoes =>
    -- the drive is still going on when the event comes, and so is that of handlers that do nothing
    obtain ⟨-, halike⟩ := Session.run_alike hb Behavior.still_returns Behavior.still_leaves
      ⟨rfl, rfl⟩ hgoing hgoing front
    obtain ⟨halike, hfault', hgoing'⟩ := halike hgoes.1 hgoes.2
    rw [Session.run_afterEvents _ front _ s hgoing, if_pos ⟨hfault', hgoing'⟩] at hboth
    obtain ⟨hsuffix, -⟩ := Session.run_alike hb Behavior.still_returns Behavior.still_leaves
      halike hgoes.2 hgoing' [e]
    refine ⟨_, Session.calls_run b (.afterEvents [e] .done) _, ?_⟩
    have hseen : (Session.run b (s.run b (.afterEvents front .done)).1
        (.afterEvents [e] .done)).1.seen Visit.bare =
          (((s.run b (.afterEvents front .done)).1.moments b (.afterEvents [e] .done)).map
            Moment.call).reverse.map (fun c => c.visit.bare) ++
            (s.run b (.afterEvents front .done)).1.seen Visit.bare := by
      rw [Session.seen, Session.calls_run, List.map_append]
      rfl
    rw [hseen, hboth, halike.seen_eq] at hsuffix
    obtain ⟨more, hmore⟩ := hsuffix
    rw [← List.append_assoc, List.append_cancel_right_eq] at hmore
    exact ⟨more, hmore⟩
  next => exact ⟨[], rfl, List.nil_suffix⟩

/-- In a drive of events every node that a close handler is given tells of the texts of its element:
the call is one of those made when the end of the element is read, which stands behind everything
inside the element, and what the node tells are the texts that come in between. -/
def Telling (b : Behavior H σ) (t : Markup.Tokenizer) (typeName : String) (closable : Bool)
    (events : List Event) : Prop :=
  let calls := fun events : List Event =>
    (d.drive b t around (.items typeName (.ofItems (events.map .event)) closable) world).1.calls
  ∀ (i : Nat) (c : Call H) (n : Node), (calls events)[i]? = some c → c.subject = .closing n →
    ∃ front name attributes depth inside name' depth' behind,
      events = front ++
        .opened name attributes depth :: (inside ++ .closed name' depth' :: behind) ∧
      calls (front ++ .opened name attributes depth :: (inside ++ [.closed name' depth'])) <+:
        calls events ∧
      (calls (front ++ .opened name attributes depth :: inside)).length ≤ i ∧
      i < (calls (front ++ .opened name attributes depth ::
        (inside ++ [.closed name' depth']))).length ∧
      n.tag.name = name ∧
      ∃ row : Forest, row.Spelled inside ∧ n.Tells (Event.texts inside) (row.runs "")

variable {d} (hidle : d.driving = false) (hb : b.KeepsNodes) (t : Markup.Tokenizer)
  (typeName : String) (closable : Bool) {events : List Event}

include hidle hb in
/-- **What close handlers are given tells of the texts of the document** (`Node.text` and
`Node.full_text`). As long as handlers leave the nodes they are given as they are but for
attributes, of any events that leave open elements only, and whatever else handlers do, the full
text of a node has all characters but blanks that come between the beginning and the end of its
element, in order; its text is the element's own text normalised as a whole, without the parts that
its mode drops; and where a mode leaves the edges alone and is that of all elements inside, the full
text is all text normalised as a whole. -/
theorem drive_tells (hnested : Event.nested 0 events = true) :
    d.Telling around world b t typeName closable events := by
  have hcalls : ∀ events : List Event,
      (d.drive b t around (.items typeName (.ofItems (events.map .event)) closable) world).1.calls =
        ((d.engaged.session around (.items typeName .done closable) world).run b
          (.afterEvents events .done)).1.calls.reverse :=
    fun events => calls_drive_run hidle b t around typeName _ closable world
  simp only [Telling, hcalls]
  induction events using List.reverseRecOn with
  | nil =>
      intro i c n hc
      obtain ⟨-, hnone, -, -⟩ := d.session_fresh around (.items typeName .done closable) world
      have hempty : ((d.engaged.session around (.items typeName .done closable) world).run b
          (.afterEvents [] .done)).1.calls = [] := hnone
      rw [hempty] at hc
      cases hc
  | append_singleton sofar e ih =>
      intro i c n hc hn
      obtain ⟨made, hmade, hseen⟩ :=
        run_event d around (.items typeName .done closable) world hb hnested
      rw [hmade, List.reverse_append] at hc
      by_cases hi : i < ((d.engaged.session around (.items typeName .done closable) world).run b
          (.afterEvents sofar .done)).1.calls.reverse.length
      · -- the call was made before
        rw [List.getElem?_append_left hi] at hc
        obtain ⟨front, name, attributes, depth, inside, name', depth', behind, hsofar, hfirst,
            htold⟩ := ih (Event.nested_of_append hnested) i c n hc hn
        refine ⟨front, name, attributes, depth, inside, name', depth', behind ++ [e],
          by simp [hsofar], hfirst.trans ?_, htold⟩
        rw [hmade, List.reverse_append]
        exact List.prefix_append _ _
      · -- the call is one of this event, which is the end of an element
        have hmem : c ∈ made := by
          rw [List.getElem?_append_right (Nat.le_of_not_lt hi)] at hc
          exact List.mem_reverse.mp (List.mem_of_getElem? hc)
        have hvisit : c.visit.bare ∈ ((Torn.ofEvents sofar).added d.book e).map Visit.bare :=
          List.mem_reverse.mp (hseen.subset (List.mem_map_of_mem hmem))
        obtain ⟨v, hv, hsame⟩ := List.mem_map.mp hvisit
        have hsubject : v.subject.bare = (Subject.closing n).bare := by
          rw [← hn]
          exact (congrArg Visit.subject hsame :)
        obtain ⟨front, name, attributes, depth, inside, name', depth', rfl, rfl, hname, htold⟩ :=
          Torn.tells_of_added (Event.nested_of_append hnested) hv hsubject
        refine ⟨front, name, attributes, depth, inside, name', depth', [], by simp, ?_,
          Nat.le_of_not_lt hi, ?_, hname, htold⟩
        · rw [List.append_assoc, List.cons_append]
        · have hlength := (List.getElem?_eq_some_iff.mp hc).1
          rw [← List.reverse_append, ← hmade] at hlength
          simpa using hlength

/-- A list that breaks off behind its first item. -/
def cutList : List Event :=
  [.opened "list" [] 1, .text " " 1, .opened "item" [] 2, .text " one " 2, .closed "item" 2]

/-- Of a list that breaks off, with handlers of which the second one sets an attribute and fails,
the close handler is given an item that tells of the text in it. -/
theorem drive_tells_cutList :
    let b := thenDoing (.setAttribute "seen" .null (.raise (.thrown .value (.text "broken")) 0))
    lister.driving = false ∧ b.KeepsNodes ∧ Event.nested 0 cutList = true ∧
      (lister.drive b refusing calm (.items "list" (.ofItems (cutList.map .event)) false)
        0).1.calls.map (fun c => c.subject.node?.map fun n => n.fullText.toList) =
          [none, some ['o', 'n', 'e']] ∧
      lister.Telling calm 0 b refusing "list" false cutList := by
  intro b
  have hkeeps : b.KeepsNodes := by
    intro c w turn
    by_cases hw : w = 0
    · subst hw
      exact ⟨rfl, rfl⟩
    · have hb : b c w = .setAttribute "seen" .null (.raise (.thrown .value (.text "broken")) 0) :=
        if_neg hw
      rw [hb]
      exact ⟨rfl, turn.bare_setAttribute "seen" .null⟩
  exact ⟨rfl, hkeeps, rfl, by decide +kernel,
    drive_tells calm 0 rfl hkeeps refusing "list" false rfl⟩

/-- It is not enough that handlers return: what one of them puts into a node is told by that node to
the next one. -/
theorem not_telling_of_returning :
    ¬ ∀ (d : Dispatcher Unit) (b : Behavior Unit Unit), d.driving = false → b.Returns →
        ∀ (around : Surroundings) (world : Unit) (t : Markup.Tokenizer) (typeName : String)
          (closable : Bool) (events : List Event), Event.nested 0 events = true →
            d.Telling around world b t typeName closable events := by
  intro h
  have hreturns : appending.Returns := by
    intro c w t
    exact ⟨rfl, Action.stopPath_append t _⟩
  have htelling := h doubled appending rfl hreturns calm () refusing "list" false
    [.opened "a" [] 1, .closed "a" 1] rfl
  -- the node that is given to the second handler has the text that the first one put into it
  have hfull : ((doubled.drive appending refusing calm (.items "list" (.ofItems
        (([.opened "a" [] 1, .closed "a" 1] : List Event).map .event)) false) ()).1.calls[1]?.bind
          fun c => c.subject.node?).map (fun n => n.fullText.toList) = some ['x'] := by
    decide +kernel
  obtain ⟨n, hnode, hn⟩ := Option.map_eq_some_iff.mp hfull
  obtain ⟨c, hc, hsubject⟩ := Option.bind_eq_some_iff.mp hnode
  have hclosing : c.subject = .closing n := by
    cases hgiven : c.subject with
    | opening o => rw [hgiven] at hsubject; cases hsubject
    | closing k => rw [hgiven] at hsubject; cases hsubject; rfl
  obtain ⟨front, name, attributes, depth, inside, name', depth', behind, hevents, -, -, -, -, row,
    -, htells⟩ := htelling 1 c n hc hclosing
  -- there is nothing between the two events
  have hinside : inside = [] := by
    have hlength := congrArg List.length hevents
    simp only [List.length_cons, List.length_append, List.length_nil] at hlength
    exact List.eq_nil_of_length_eq_zero (by omega)
  have hink := htells.ink_eq
  rw [hinside, hn] at hink
  exact absurd hink (by decide)

end Dispatcher

end MarkupRouting
