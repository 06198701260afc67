import MarkupRouting.Proofs.Routing.DocumentPrefixes
import MarkupRouting.Proofs.Rule.NonInterference

/-!
# Drives with other rules

What is done for some of the rules of a book does not depend on what other rules there are, but for
what texts look like: the text mode of an element does what the modes of all rules do that are
interested in it.

* **Node.shape**, **Subject.shape** — what a handler is given without texts and text modes: the
  element with everything inside it.
* **Visit.via** — a call seen so, without the place of its rule in the order of registration.
* **RuleBook.Apart.visits**, **Forest.visits_apart**, **Torn.visits_apart** — the calls for an
  element, for a row and up to some point of a document.
* **Among.share_visits** — the calls of a drive with other rules, and of one without them.
* **Dispatcher.drive_apart** — a drive with other rules, and a drive without them.
-/

namespace MarkupRouting

variable {H σ : Type}

/-! ### Without texts -/

mutual

/-- The elements in a content, without texts and text modes. -/
def Content.shape : Content → List Content
  | .text _ => []
  | .element tag contents => [.element { tag with mode := .keep } (Content.shapes contents)]

/-- The elements in several contents, without texts and text modes. -/
def Content.shapes : List Content → List Content
  | [] => []
  | c :: rest => Content.shape c ++ Content.shapes rest

end

/-- An element with all elements inside it, without texts and text modes: names, paths, positions,
attributes and the order of children. Other rules can change texts, through the mode they ask for,
and nothing of this. -/
def Node.shape (n : Node) : Node := ⟨{ n.tag with mode := .keep }, Content.shapes n.contents⟩

/-- What a handler is given, without texts and text modes. -/
def Subject.shape : Subject → Subject
  | .opening o => .opening o
  | .closing n => .closing n.shape

/-- A call of which the rule is seen without its place in the order of registration, and what the
handler is given in some other way. -/
def Visit.via (g : Subject → Subject) (v : Visit H) : Visit H :=
  { v with rule := v.rule.unnumbered, subject := g v.subject }

/-- Elements among contents put together are those of their parts. -/
theorem Content.shapes_append (cs ds : List Content) :
    shapes (cs ++ ds) = shapes cs ++ shapes ds := by
  induction cs with
  | nil => rfl
  | cons c rest ih => rw [List.cons_append, shapes, ih, shapes, List.append_assoc]

/-- In a text there is no element. -/
theorem Content.shapes_keptText (s : String) : shapes (keptText s) = [] := by
  unfold keptText
  split <;> rfl

/-- The elements inside an element are the same, whatever the rules are. -/
theorem Forest.shapes_contents (book book' : RuleBook H) (path before : List String) (run : String)
    (forest : Forest) :
    Content.shapes (forest.contents book path before run) =
      Content.shapes (forest.contents book' path before run) := by
  induction forest generalizing path before run with
  | done => rw [contents, contents, Content.shapes_keptText, Content.shapes_keptText]
  | text s rest ih => exact ih path before (run ++ s)
  | element name attributes inside rest ihInside ihRest =>
      rw [contents, contents, Content.shapes_append, Content.shapes_append,
        Content.shapes_keptText, Content.shapes_keptText, Content.shapes, Content.shapes,
        Content.shape, Content.shape, ihInside, ihRest]
      rfl

/-- Where the modes are the same the contents of a node are. -/
theorem Forest.contents_congr {book book' : RuleBook H} (path before : List String) (run : String)
    (forest : Forest) (hmode : ∀ more, book.modeAt (path ++ more) = book'.modeAt (path ++ more)) :
    forest.contents book path before run = forest.contents book' path before run := by
  induction forest generalizing path before run with
  | done => rw [contents, contents, ← List.append_nil path, hmode []]
  | text s rest ih => exact ih path before (run ++ s) hmode
  | element name attributes inside rest ihInside ihRest =>
      have hhere : book.modeAt path = book'.modeAt path := by
        rw [← List.append_nil path]
        exact hmode []
      have hinside : ∀ more, book.modeAt (path ++ [name] ++ more) =
          book'.modeAt (path ++ [name] ++ more) := by
        intro more
        rw [List.append_assoc]
        exact hmode ([name] ++ more)
      rw [contents, contents, hhere, ihInside _ _ _ hinside, ihRest _ _ _ hmode, RuleBook.tag,
        RuleBook.tag, hmode [name]]

/-! ### Calls -/

section Calls

variable {ours : Rule H → Bool} {book book' : RuleBook H} {g : Subject → Subject}

/-- The calls of which some are somebody's, as they are seen. -/
def Visit.share (ours : Rule H → Bool) (g : Subject → Subject) (visits : List (Visit H)) :
    List (Visit H) :=
  (visits.filter fun v => ours v.rule).map (Visit.via g)

/-- Of calls one behind the other the share is taken one behind the other. -/
theorem Visit.share_append (vs ws : List (Visit H)) :
    share ours g (vs ++ ws) = share ours g vs ++ share ours g ws := by
  rw [share, List.filter_append, List.map_append]
  rfl

/-- The call of the handler that a rule has for a phase, as it is seen. -/
def Rule.seen (g : Subject → Subject) (phase : Phase) (path : List String) (subject : Subject)
    (r : Rule H) : Option (Visit H) :=
  (Session.handlerOf phase r).map fun handler =>
    { handler, phase, rule := r.unnumbered, path := pathOf path, depth := path.length,
      subject := g subject }

/-- The place of the rule is not seen. -/
theorem Rule.seen_unnumbered (phase : Phase) (path : List String) (subject : Subject)
    (rules : List (Rule H)) :
    (rules.map Rule.unnumbered).filterMap (Rule.seen g phase path subject) =
      rules.filterMap (Rule.seen g phase path subject) := by
  rw [List.filterMap_map]
  refine List.filterMap_congr fun r _ => ?_
  cases phase <;> rfl

/-- The calls for an element, as somebody sees them. -/
theorem RuleBook.share_visits (phase : Phase) (path : List String) (subject : Subject) :
    Visit.share ours g (book.visits phase path subject) =
      ((book.selecting path).filter ours).filterMap (Rule.seen g phase path subject) := by
  rw [Visit.share, RuleBook.visits, List.filter_filterMap, List.map_filterMap,
    List.filterMap_filter]
  refine List.filterMap_congr fun r _ => ?_
  rw [Rule.seen]
  cases Session.handlerOf phase r with
  | none => cases ours r <;> rfl
  | some handler =>
      cases hr : ours r with
      | false => simp [hr]
      | true => simp [hr, Visit.via]

/-- All calls for an element, as they are seen. -/
theorem RuleBook.map_visits (phase : Phase) (path : List String) (subject : Subject) :
    (book.visits phase path subject).map (Visit.via g) =
      (book.selecting path).filterMap (Rule.seen g phase path subject) := by
  rw [RuleBook.visits, List.map_filterMap]
  refine List.filterMap_congr fun r _ => ?_
  rw [Rule.seen, Option.map_map]
  rfl

/-- For an element the same handlers are called as without the other rules. -/
theorem RuleBook.Apart.visits (h : Apart ours book book') (phase : Phase) (path : List String)
    {subject subject' : Subject}
    (hsubject : (∃ r ∈ book'.selecting path, (Session.handlerOf phase r).isSome = true) →
      g subject = g subject') :
    Visit.share ours g (book.visits phase path subject) =
      (book'.visits phase path subject').map (Visit.via g) := by
  have hsame : (book'.selecting path).filterMap (Rule.seen g phase path subject) =
      (book'.selecting path).filterMap (Rule.seen g phase path subject') := by
    refine List.filterMap_congr fun r hr => ?_
    rw [Rule.seen, Rule.seen]
    cases hhandler : Session.handlerOf phase r with
    | none => rfl
    | some handler => rw [hsubject ⟨r, hr, by rw [hhandler]; rfl⟩]
  rw [RuleBook.share_visits, RuleBook.map_visits, ← hsame, ← Rule.seen_unnumbered, h.selecting,
    Rule.seen_unnumbered]

variable (h : RuleBook.Apart ours book book')
  (hnode : ∀ path before name attributes inside,
    (∃ r ∈ book'.selecting (path ++ [name]), r.onClose.isSome = true) →
      g (.closing (book.node path before name attributes inside)) =
        g (.closing (book'.node path before name attributes inside)))

include h hnode

/-- For a row the same handlers are called as without the other rules. -/
theorem Forest.visits_apart (forest : Forest) (path before : List String) :
    Visit.share ours g (forest.visits book path before) =
      (forest.visits book' path before).map (Visit.via g) := by
  induction forest generalizing path before with
  | done => rfl
  | text s rest ih => exact ih path before
  | element name attributes inside rest ihInside ihRest =>
      rw [visits, Visit.share_append, Visit.share_append, Visit.share_append, ihInside, ihRest,
        h.visits .opening _ fun _ => rfl,
        h.visits .closing _ (hnode path before name attributes inside), visits, List.map_append,
        List.map_append, List.map_append]

/-- Up to some point of a document the same handlers are called as without the other rules. -/
theorem Torn.visits_apart (t : Torn) :
    Visit.share ours g (t.visits book) = (t.visits book').map (Visit.via g) := by
  have hlevels : ∀ around : List Level, Visit.share ours g (Level.visits book around) =
      (Level.visits book' around).map (Visit.via g) := by
    intro around
    induction around with
    | nil => rfl
    | cons l around ih =>
        rw [Level.visits, Visit.share_append, Visit.share_append, ih, Forest.visits_apart h hnode,
          Level.entered, h.visits .opening _ fun _ => rfl, Level.visits, List.map_append,
          List.map_append, Level.entered]
  rw [visits, Visit.share_append, hlevels, Forest.visits_apart h hnode, visits, List.map_append]

end Calls

/-! ### Drives -/

namespace Dispatcher

/-- All the given rules were registered with the first dispatcher, in the given order, and of these
the marked ones with the second one. Neither is driving. -/
structure Among (offers : List (Bool × Value × Offer H)) (d d' : Dispatcher H) : Prop where
  /-- The first dispatcher is not driving. -/
  idle : d.driving = false
  /-- Nor is the second one. -/
  idle' : d'.driving = false
  /-- All rules are those of the first one. -/
  registered : ((RuleBook.empty d.book.defaultMode).registerAll (offers.map Prod.snd)).2 =
    (d.book, none)
  /-- The marked ones are those of the second one. -/
  alone : ((RuleBook.empty d.book.defaultMode).registerAll
    ((offers.filter Prod.fst).map Prod.snd)).2.1 = d'.book

/-- The marked rules can be registered without the others, and are the same rules then. -/
theorem Among.apart {offers : List (Bool × Value × Offer H)} {d d' : Dispatcher H}
    (h : Among offers d d') :
    ((RuleBook.empty d.book.defaultMode).registerAll
        ((offers.filter Prod.fst).map Prod.snd)).2.2 = none ∧
      RuleBook.Apart (RuleBook.marked offers) d.book d'.book := by
  have hempty : RuleBook.Apart (RuleBook.marked offers) (RuleBook.empty d.book.defaultMode)
      (RuleBook.empty d.book.defaultMode) :=
    ⟨rfl, rfl, (RuleBook.Registered.empty _).ordered, (RuleBook.Registered.empty _).ordered⟩
  obtain ⟨hnone, hapart⟩ :=
    RuleBook.registerAll_apart hempty offers rfl (congrArg Prod.snd h.registered)
  rw [h.registered, h.alone] at hapart
  exact ⟨hnone, hapart⟩

/-- The calls of a drive of the given events. -/
def visits (d : Dispatcher H) (b : Behavior H σ) (t : Markup.Tokenizer) (around : Surroundings)
    (typeName : String) (closable : Bool) (world : σ) (events : List Event) : List (Visit H) :=
  (d.drive b t around (.items typeName (.ofItems (events.map .event)) closable) world).1.calls.map
    Call.visit

variable {offers : List (Bool × Value × Offer H)} {d d' : Dispatcher H} {b b' : Behavior H σ}

/-- What is seen of the calls for the marked rules is what is seen of the calls without the others,
where handlers leave the elements they are given as they are, and nodes that close handlers are
given look the same. -/
theorem Among.share_visits (h : Among offers d d') (hb : b.Returns) (hb' : b'.Returns)
    (t : Markup.Tokenizer) (around : Surroundings) (typeName : String) (closable : Bool)
    (world world' : σ) {events : List Event} (hnested : Event.nested 0 events = true)
    (hleaves : b.LeavesElements) (hleaves' : b'.LeavesElements) (g : Subject → Subject)
    (hnode : ∀ path before name attributes inside,
      (∃ r ∈ d'.book.selecting (path ++ [name]), r.onClose.isSome = true) →
        g (.closing (d.book.node path before name attributes inside)) =
          g (.closing (d'.book.node path before name attributes inside))) :
    Visit.share (RuleBook.marked offers) g
        (d.visits b t around typeName closable world events) =
      (d'.visits b' t around typeName closable world' events).map (Visit.via g) := by
  -- the share of calls is known where for each call it is known whose it is and what is seen of it
  have hpairs : ∀ vs : List (Visit H), Visit.share (RuleBook.marked offers) g vs =
      ((vs.map fun v => (RuleBook.marked offers v.rule, Visit.via g v)).filter Prod.fst).map
        Prod.snd := by
    intro vs
    rw [List.filter_map, List.map_map]
    rfl
  have hall := drive_torn (fun v => (RuleBook.marked offers v.rule, Visit.via g v)) (.inl hleaves) d
    h.idle hb t around typeName hnested closable world
  have halone := drive_torn (Visit.via g) (.inl hleaves') d' h.idle' hb' t around typeName hnested
    closable world'
  have hvisits : (d.visits b t around typeName closable world events).map
        (fun v => (RuleBook.marked offers v.rule, Visit.via g v)) =
      ((Torn.ofEvents events).visits d.book).map
        fun v => (RuleBook.marked offers v.rule, Visit.via g v) := by
    rw [← hall]
    exact List.map_map
  have hvisits' : (d'.visits b' t around typeName closable world' events).map (Visit.via g) =
      ((Torn.ofEvents events).visits d'.book).map (Visit.via g) := by
    rw [← halone]
    exact List.map_map
  rw [hpairs, hvisits, ← hpairs, hvisits', Torn.visits_apart h.apart.2 hnode]

/-- **Rules do not interfere with each other.** Take any rules, some of which are marked, and of
events that leave open elements only a drive with all of them and one with the marked ones alone
(`RuleDispatcher.drive`), with handlers that return, ask for no stop and leave the elements they are
given as they are. The marked rules can be registered alone as well, and for them the same handlers
are called, in the same order, for the same elements with the same elements inside. If, besides, the
other rules have open handlers only, or all rules with close handlers have one text mode, they are
given the same texts. -/
theorem drive_apart (h : Among offers d d') (hb : b.Returns) (hb' : b'.Returns)
    (hleaves : b.LeavesElements) (hleaves' : b'.LeavesElements)
    (t : Markup.Tokenizer) (around : Surroundings) (typeName : String) (closable : Bool)
    (world world' : σ) {events : List Event} (hnested : Event.nested 0 events = true) :
    let ours := RuleBook.marked offers
    let visits := d.visits b t around typeName closable world events
    let visits' := d'.visits b' t around typeName closable world' events
    ((RuleBook.empty d.book.defaultMode).registerAll
        ((offers.filter Prod.fst).map Prod.snd)).2.2 = none ∧
      Visit.share ours Subject.shape visits = visits'.map (Visit.via Subject.shape) ∧
      ((∀ r ∈ d.book.rules, ours r = false → r.onClose = none) ∨
          (∃ m, ∀ r ∈ d.book.rules, r.onClose.isSome = true → r.mode = m) →
        Visit.share ours id visits = visits'.map (Visit.via id)) := by
  intro ours visits visits'
  obtain ⟨hnone, hapart⟩ := h.apart
  have hseen := h.share_visits hb hb' t around typeName closable world world' hnested hleaves
    hleaves'
  refine ⟨hnone, hseen Subject.shape ?_, fun hmodes => hseen id ?_⟩
  · intro path before name attributes inside _
    simp only [Subject.shape, Node.shape, RuleBook.node, RuleBook.tag,
      Forest.shapes_contents d.book d'.book]
  · intro path before name attributes inside hcloses
    -- the modes of the element and of everything inside it are the same
    have hmode : ∀ more, d.book.modeAt (path ++ [name] ++ more) =
        d'.book.modeAt (path ++ [name] ++ more) := by
      intro more
      rcases hmodes with hopen | ⟨m, hone⟩
      · exact hapart.modeAt_of_open hopen _
      · exact hapart.modeAt_of_one hone
          (RuleBook.shaping_append_ne_nil (RuleBook.shaping_ne_nil hcloses) more)
    have htag := hmode []
    rw [List.append_nil] at htag
    simp only [id, RuleBook.node, RuleBook.tag, htag, Forest.contents_congr _ _ _ inside hmode]

/-- Three rules for elements called `a`, of which the first one is somebody else's. -/
def mixedOffers : List (Bool × Value × Offer Bool) :=
  [(false, .text "a", .handler false), (true, .text "a", .handler true),
    (true, .text "a", .handler true)]

/-- A dispatcher with all of them. -/
def mixed : Dispatcher Bool :=
  { settings := {}, book := ((RuleBook.empty .keep).registerAll (mixedOffers.map Prod.snd)).2.1 }

/-- A dispatcher without the first one. -/
def unmixed : Dispatcher Bool :=
  { settings := {}
    book := ((RuleBook.empty .keep).registerAll
      ((mixedOffers.filter Prod.fst).map Prod.snd)).2.1 }

/-- The rules of the example are among those it has without the others. -/
theorem among_mixedOffers : Among mixedOffers mixed unmixed :=
  ⟨rfl, rfl, Prod.ext rfl rfl, rfl⟩

/-- With all three rules and without the first one the handlers of the other two are called
alike. -/
theorem drive_apart_mixedOffers :
    let events : List Event := [.opened "a" [] 1, .text " " 1, .opened "a" [] 2, .closed "a" 2]
    Among mixedOffers mixed unmixed ∧ (Behavior.still : Behavior Bool Unit).Returns ∧
      (Behavior.still : Behavior Bool Unit).LeavesElements ∧ Event.nested 0 events = true ∧
      (∀ r ∈ mixed.book.rules, r.onClose.isSome = true → r.mode = .keep) ∧
      (unmixed.visits .still refusing calm "list" false () events).length = 2 ∧
      Visit.share (RuleBook.marked mixedOffers) id
          (mixed.visits .still refusing calm "list" false () events) =
        (unmixed.visits .still refusing calm "list" false () events).map (Visit.via id) := by
  intro events
  have hmodes : ∀ r ∈ mixed.book.rules, r.onClose.isSome = true → r.mode = .keep := by
    decide +kernel
  have hnested : Event.nested 0 events = true := rfl
  obtain ⟨-, -, hseen⟩ := drive_apart among_mixedOffers Behavior.still_returns
    Behavior.still_returns (Behavior.still_leaves (σ := Unit)) Behavior.still_leaves refusing calm
    "list" false () () hnested
  exact ⟨among_mixedOffers, Behavior.still_returns, Behavior.still_leaves, rfl, hmodes,
    by decide +kernel, hseen (.inr ⟨.keep, hmodes⟩)⟩

/-- An element to be put into a node. -/
def extra : Content := .element ⟨"b", "/a/b", [], .int 1, .keep⟩ []

/-- It is not enough that handlers return. What handlers of other rules put into a node is given to
the handlers of the marked ones; if they put in nothing, handlers of the marked rules may do so
because of what the others keep; and if all leave the elements as they are, one of the others may
ask for a stop. -/
theorem not_apart_of_returning :
    (¬ ∀ (d d' : Dispatcher Bool) (b : Behavior Bool Bool), Among mixedOffers d d' → b.Returns →
        (∀ (c : Call Bool) (w : Bool) (t : Turn Bool), RuleBook.marked mixedOffers c.rule = true →
          ((b c w).run t).1.frame = t.frame) →
        ∀ (t : Markup.Tokenizer) (around : Surroundings) (typeName : String) (closable world : Bool)
          (events : List Event), Event.nested 0 events = true →
            Visit.share (RuleBook.marked mixedOffers) Subject.shape
                (d.visits b t around typeName closable world events) =
              (d'.visits b t around typeName closable world events).map
                (Visit.via Subject.shape)) ∧
      (¬ ∀ (d d' : Dispatcher Bool) (b : Behavior Bool Bool), Among mixedOffers d d' → b.Returns →
        (∀ (c : Call Bool) (w : Bool) (t : Turn Bool), RuleBook.marked mixedOffers c.rule = false →
          ((b c w).run t).1.frame = t.frame) →
        ∀ (t : Markup.Tokenizer) (around : Surroundings) (typeName : String) (closable world : Bool)
          (events : List Event), Event.nested 0 events = true →
            Visit.share (RuleBook.marked mixedOffers) Subject.shape
                (d.visits b t around typeName closable world events) =
              (d'.visits b t around typeName closable world events).map
                (Visit.via Subject.shape)) ∧
      ¬ ∀ (d d' : Dispatcher Bool) (b : Behavior Bool Bool), Among mixedOffers d d' →
        (∀ (c : Call Bool) (w : Bool) (t : Turn Bool), ((b c w).run t).2.2 = none) →
        b.LeavesElements →
        ∀ (t : Markup.Tokenizer) (around : Surroundings) (typeName : String) (closable world : Bool)
          (events : List Event), Event.nested 0 events = true →
            Visit.share (RuleBook.marked mixedOffers) Subject.shape
                (d.visits b t around typeName closable world events) =
              (d'.visits b t around typeName closable world events).map
                (Visit.via Subject.shape) := by
  -- what is compared is how much stands in the nodes that are given to the handlers
  refine ⟨fun h => ?_, fun h => ?_, fun h => ?_⟩
  · have hvisits := h mixed unmixed
      (fun c w => if RuleBook.marked mixedOffers c.rule then .finish w
        else .append extra (.finish w)) among_mixedOffers ?_ ?_
      refusing calm "list" false false [.opened "a" [] 1, .closed "a" 1] rfl
    · have hlengths := congrArg
        (List.map fun v : Visit Bool => v.subject.node?.map fun n => n.contents.length) hvisits
      exact absurd hlengths (by decide +kernel)
    · intro c w t
      dsimp only
      split
      · exact ⟨rfl, rfl⟩
      · exact ⟨rfl, Action.stopPath_append t extra⟩
    · intro c w t hmarked
      rw [if_pos hmarked]
      rfl
  · have hvisits := h mixed unmixed
      (fun c w => if RuleBook.marked mixedOffers c.rule then
        if w then .append extra (.finish w) else .finish w else .finish true)
      among_mixedOffers ?_ ?_ refusing calm "list" false false [.opened "a" [] 1, .closed "a" 1] rfl
    · have hlengths := congrArg
        (List.map fun v : Visit Bool => v.subject.node?.map fun n => n.contents.length) hvisits
      exact absurd hlengths (by decide +kernel)
    · intro c w t
      dsimp only
      split
      · split
        · exact ⟨rfl, Action.stopPath_append t extra⟩
        · exact ⟨rfl, rfl⟩
      · exact ⟨rfl, rfl⟩
    · intro c w t hother
      rw [hother]
      rfl
  · have hvisits := h mixed unmixed
      (fun c w => if RuleBook.marked mixedOffers c.rule then .finish w else .stop (.finish w))
      among_mixedOffers ?_ ?_
      refusing calm "list" false false [.opened "a" [] 1, .closed "a" 1] rfl
    · exact absurd (congrArg List.length hvisits) (by decide +kernel)
    · intro c w t
      split
      · rfl
      · rfl
    · intro c w t
      dsimp only
      split
      · rfl
      · exact t.frame_stop

end Dispatcher

end MarkupRouting
