import MarkupRouting.Proofs.Element.Ledger
import MarkupRouting.Proofs.Routing.DocumentPrefixes

/-!
# Which nodes are built

Nodes are built for the elements that close handlers are called for and for everything inside
those, and for nothing else. A node is given up when the outermost of these elements around it is
left, so that there are never more nodes at once than the largest of these is made of.

* **RuleBook.closes**, **RuleBook.builds** — close handlers are called for an element; a node is
  built for it.
* **Forest.built**, **Forest.outermost** — the nodes that are built for a document, and the sizes of
  the outermost elements that they are built for.
* **Session.Stands**, **Session.Covered** — a place in a document; what was built is held or was
  given up.
* **Session.Crossing** — the sessions around an element that is read.
* **Session.builds_forest**, **Session.peak_forest** — a row is read: what is built, and how many
  nodes there are at once.
* **Session.Crossing.peak_eq** — how many nodes there are at once while an
  outermost element is read.
* **Dispatcher.drive_builds** — both for a drive of a whole document.
-/

namespace MarkupRouting

variable {H σ : Type}

/-! ### Documents -/

namespace RuleBook

/-- A rule with a close handler selects the element at a path. -/
def closes (book : RuleBook H) (path : List String) : Bool :=
  (book.selecting path).any Rule.wantsNode

/-- A rule with a close handler selects the element at a path or an element around it: just then a
node is built for the element (`OpenFrame.materializing`). -/
def builds (book : RuleBook H) (path : List String) : Bool := path.inits.any book.closes

/-- Above the root element nothing is built. -/
theorem builds_nil (book : RuleBook H) : book.builds [] = false := by
  simp [builds, closes, selecting_nil]

/-- A node is built where one is built for the parent or close handlers are called. -/
theorem builds_concat (book : RuleBook H) (path : List String) (name : String) :
    book.builds (path ++ [name]) = (book.builds path || book.closes (path ++ [name])) := by
  have hinits : (path ++ [name]).inits = path.inits ++ [path ++ [name]] := by
    simp [List.inits_append]
  rw [builds, hinits, List.any_append, List.any_cons, List.any_nil, Bool.or_false, builds]

end RuleBook

namespace Forest

/-- How many elements there are in a row, with those inside them. -/
def size : Forest → Nat
  | done => 0
  | text _ rest => rest.size
  | element _ _ inside rest => inside.size + 1 + rest.size

/-- The nodes that are built for a row inside the element at a path, behind siblings of the given
names: for every element that a rule with a close handler selects and for every element inside one,
in the order in which they are entered. Nothing stands in them yet. -/
def built (book : RuleBook H) (path before : List String) : Forest → List Node
  | done => []
  | text _ rest => rest.built book path before
  | element name attributes inside rest =>
    (if book.builds (path ++ [name]) then [⟨book.tag path before name attributes, []⟩] else []) ++
      inside.built book (path ++ [name]) [] ++ rest.built book path (before ++ [name])

/-- How many elements each of the outermost elements is made of that a rule with a close handler
selects, in a row inside the element at a path. -/
def outermost (book : RuleBook H) (path : List String) : Forest → List Nat
  | done => []
  | text _ rest => rest.outermost book path
  | element name _ inside rest =>
    (if book.closes (path ++ [name]) then [inside.size + 1]
      else inside.outermost book (path ++ [name])) ++ rest.outermost book path

/-- Inside an element that a node is built for, one is built for every element. -/
theorem length_built_of_builds {book : RuleBook H} {path : List String}
    (hbuilds : book.builds path = true) (before : List String) (forest : Forest) :
    (forest.built book path before).length = forest.size := by
  induction forest generalizing path before with
  | done => rfl
  | text s rest ih => exact ih hbuilds before
  | element name attributes inside rest ihInside ihRest =>
      have hinside : book.builds (path ++ [name]) = true := by
        rw [book.builds_concat, hbuilds, Bool.true_or]
      rw [built, if_pos hinside, List.length_append, List.length_append, List.length_singleton,
        ihInside hinside, ihRest hbuilds, size]
      omega

/-- Outside, one is built for every element of the outermost ones that close handlers are called
for. -/
theorem length_built {book : RuleBook H} {path : List String} (hbuilds : book.builds path = false)
    (before : List String) (forest : Forest) :
    (forest.built book path before).length = (forest.outermost book path).sum := by
  induction forest generalizing path before with
  | done => rfl
  | text s rest ih => exact ih hbuilds before
  | element name attributes inside rest ihInside ihRest =>
      have hinside : book.builds (path ++ [name]) = book.closes (path ++ [name]) := by
        rw [book.builds_concat, hbuilds, Bool.false_or]
      rw [built, outermost, hinside, List.length_append, List.length_append, List.sum_append,
        ihRest hbuilds]
      cases hcloses : book.closes (path ++ [name]) with
      | false =>
          rw [ihInside (hinside.trans hcloses)]
          simp
      | true =>
          rw [length_built_of_builds (hinside.trans hcloses)]
          simp
          omega

end Forest

/-- The largest of numbers in two lists. -/
theorem foldr_max_append (ms ns : List Nat) :
    (ms ++ ns).foldr max 0 = max (ms.foldr max 0) (ns.foldr max 0) := by
  induction ms with
  | nil => exact (Nat.zero_max _).symm
  | cons m rest ih => rw [List.cons_append, List.foldr_cons, ih, List.foldr_cons, Nat.max_assoc]

/-! ### The stack -/

namespace Stack

variable {st st' : Stack H}

/-- Where no node is built for the innermost open element, what is read there is not held. -/
theorem Grown.held_eq (h : st.Grown st') (hsound : ∀ f ∈ st.frames, f.Sound)
    (hplain : st.building = false) : Frame.held st'.frames = Frame.held st.frames := by
  cases h with
  | above pending counts counts' => rfl
  | inside hf rest pending counts =>
      have hbefore := hsound _ List.mem_cons_self
      have hbehind := hf.kin.sound hbefore
      rw [Frame.held_cons, Frame.held_cons, hbefore.weight_eq_zero hplain,
        hbehind.weight_eq_zero (hf.kin.materializing_eq.trans hplain)]

/-- When an element is left nothing happens to the books but that its node may be given up, and
that only where there is a node and none around it. -/
theorem settle_ledger {f : Frame H} {l l' : Ledger} {fate : Fate}
    (h : st.settle f l = .ok (fate, st', l')) :
    ∃ freed, l.freed ≤ freed ∧ l' = { l with freed } ∧
      (st.building = true ∨ f.contents = none → freed = l.freed) := by
  unfold Stack.settle at h
  unfold Stack.building
  cases hnode : f.node? with
  | none =>
      rw [hnode] at h
      cases h
      exact ⟨l.freed, le_refl _, rfl, fun _ => rfl⟩
  | some n =>
      have hsome : f.contents ≠ none := by
        intro hnone
        rw [Frame.node?, hnone] at hnode
        cases hnode
      rw [hnode] at h
      cases hframes : st.frames with
      | nil =>
          rw [hframes] at h
          cases h
          exact ⟨_, Nat.le_add_right l.freed n.size, rfl, by simp [hsome]⟩
      | cons parent rest =>
          rw [hframes] at h
          dsimp only at h ⊢
          split at h
          · split at h
            · cases h
              exact ⟨l.freed, le_refl _, rfl, fun _ => rfl⟩
            · cases h
          next hparent =>
            cases h
            exact ⟨_, Nat.le_add_right l.freed n.size, rfl, by simp [hparent, hsome]⟩

end Stack

/-! ### Events that lead on -/

namespace Session

variable {b : Behavior H σ} {s s' s₁ s₂ : Session H σ} {book : RuleBook H}
  {path before : List String}

/-- Events lead to one session only. -/
theorem Leads.unique {events : List Event} (h₁ : Leads b s events s₁) (h₂ : Leads b s events s₂) :
    s₁ = s₂ := congrArg Prod.fst ((h₁ .done).symm.trans (h₂ .done))

/-- Where the first events lead to a session, the others lead on from there. -/
theorem Leads.rest (front : List Event) {back : List Event} (h : Leads b s (front ++ back) s₂)
    (h₁ : Leads b s front s₁) : Leads b s₁ back s₂ := by
  intro feed
  rw [← h₁, ← Feed.afterEvents_append, h]

/-- An event that leads on is taken. -/
theorem Leads.take {e : Event} (h : Leads b s [e] s') : s.take b (.event e) = (s', none) := by
  have hrun : s.run b (.item (.event e) .done) = (s', none) := h .done
  unfold Session.run at hrun
  cases htake : s.take b (.event e) with
  | mk s₁ fault =>
      rw [htake] at hrun
      cases fault with
      | some fault => cases (Prod.mk.inj hrun).2
      | none =>
          dsimp only at hrun
          split at hrun
          · rw [(Prod.mk.inj hrun).1]
          · have hsame : s₁ = s' := (Prod.mk.inj hrun).1
            rw [hsame]

/-- An event that is taken is dispatched, and nothing else happens to the stack and the ledger. -/
theorem Leads.dispatch {e : Event} (h : Leads b s [e] s') :
    ∃ s₁, s.counted.dispatch b (.event e) = (s₁, none) ∧ s'.stack = s₁.stack ∧
      s'.ledger = s₁.ledger := by
  have htake := h.take
  unfold Session.take at htake
  split at htake
  · cases (Prod.mk.inj htake).2
  next s₁ hdispatch =>
    obtain ⟨_, _, hsample⟩ := s₁.maybeSample_eq
    refine ⟨s₁, hdispatch, ?_, ?_⟩
    · rw [← (Prod.mk.inj htake).1, hsample]
    · rw [← (Prod.mk.inj htake).1, hsample]

/-- A text changes nothing of the books. -/
theorem Leads.ledger_text {text : String} {depth : Nat} (h : Leads b s [.text text depth] s') :
    s'.ledger = s.ledger := by
  obtain ⟨s₁, hdispatch, -, hledger⟩ := h.dispatch
  have hhear : s.counted.hear text = s₁ := (Prod.mk.inj hdispatch).1
  rw [hledger, ← hhear]
  unfold Session.hear
  split
  · split
    · rfl
    · rfl
  · rfl

/-- When an element was entered its frame is on top of the stack, and nothing happened to the books
but that its node was built. -/
theorem Leads.opened {name : String} {attributes : Table Value} {depth : Nat}
    (h : Leads b s [.opened name attributes depth] s') (hsound : ∀ f ∈ s.stack.frames, f.Sound) :
    ∃ f, s'.stack = (s.stack.around name).push f ∧ (s.entering name attributes).2.Touched f ∧
      s'.ledger = (s.entering name attributes).1.ledger := by
  obtain ⟨s₁, hdispatch, hstack, hledger⟩ := h.dispatch
  have henter : s.counted.enter b name attributes = (s₁, none) := hdispatch
  rw [enter_eq b (s := s.counted) hsound] at henter
  dsimp only at henter
  have hbeside := invokeAll_beside b .opening (s.counted.entering name attributes).2.openRules
    (s.counted.entering name attributes).1 (s.counted.entering name attributes).2
  have htouched := touched_invokeAll b .opening (s.counted.entering name attributes).2.openRules
    (s.counted.entering name attributes).1 (s.counted.entering name attributes).2
  generalize invokeAll b .opening _ _ _ = called at henter hbeside htouched
  rw [← (Prod.mk.inj henter).1] at hstack hledger
  refine ⟨called.2.1, ?_, htouched, hledger.trans hbeside.ledger_eq⟩
  rw [hstack, hbeside.stack_eq]
  rfl

/-- When an element was left nothing happened to the books but that its node may have been given up,
and that only where there was a node and none around it. -/
theorem Leads.closed {name : String} {depth : Nat} {around : Stack H} {f : Frame H}
    (h : Leads b s [.closed name depth] s') (hstack : s.stack = around.push f) (hsound : f.Sound) :
    ∃ freed, s'.ledger = { s.ledger with freed } ∧
      (around.building = true ∨ f.materializing = false → freed = s.ledger.freed) := by
  obtain ⟨s₁, hdispatch, -, hledger⟩ := h.dispatch
  obtain ⟨s₂, hs₂⟩ : ∃ s₂ : Session H σ,
      s₂ = { s.counted with stack := around, tally := s.counted.tally.left } := ⟨_, rfl⟩
  have hstage : s.counted.stage (.event (.closed name depth)) =
      .calling .closing (if f.complete.contents.isSome then f.complete.closeRules else []) s₂
        f.complete := by
    have hpopped : s.counted.stack.leave? = some (f, around) := by
      have hsame : s.counted.stack = around.push f := hstack
      rw [hsame]
      rfl
    simp only [Session.stage, hpopped, hsound.textual, Bool.false_eq_true, ↓reduceIte, hs₂]
  rw [dispatch_eq, hstage, Stage.complete] at hdispatch
  -- what the close handlers do happens beside the books
  have hbeside := invokeAll_beside b .closing
    (if f.complete.contents.isSome then f.complete.closeRules else []) s₂ f.complete
  have hkin := f.kin_complete
  have htouched := touched_invokeAll b .closing
    (if f.complete.contents.isSome then f.complete.closeRules else []) s₂ f.complete
  generalize invokeAll b .closing _ s₂ f.complete = called at hdispatch hbeside htouched
  obtain ⟨s₃, g, fault⟩ := called
  obtain ⟨fate, st, l, records, hsettle, rfl⟩ := settle_of_afterCalls hdispatch
  have hbooks : s₃.ledger = s.ledger := by rw [hbeside.ledger_eq, hs₂]; rfl
  have haround : s₃.stack = around := by rw [hbeside.stack_eq, hs₂]
  obtain ⟨freed, -, hfreed, hkept⟩ := Stack.settle_ledger hsettle
  rw [haround, hbooks] at hkept
  refine ⟨freed, ?_, fun hwhere => hkept (hwhere.imp_right fun hplain => ?_)⟩
  · rw [hledger, hfreed, hbooks]
  · exact (htouched.kin.sound (hkin.sound hsound)).contents_eq_none
      (htouched.kin.materializing_eq.trans (hkin.materializing_eq.trans hplain))

/-! ### Rows -/

/-- The drive goes on at a place in the document, and it is known there whether a node is built for
the innermost open element. -/
structure Stands (book : RuleBook H) (path before : List String) (s : Session H σ) : Prop where
  /-- Nobody asked for a stop. -/
  going : s.stopPath = none
  /-- The place. -/
  place : s.stack.At book path before
  /-- Whether a node is built there. -/
  building_eq : s.stack.building = book.builds path

/-- What was built is held or was given up, and nothing else was given up. Handlers that put nodes
in or take nodes out break this, and with it what the peak tells. -/
structure Covered (s : Session H σ) : Prop where
  /-- The drive is in order. -/
  orderly : s.Orderly
  /-- Nothing is missing, and nothing was put in. -/
  even : s.debt = 0

/-- What was built stays covered, where handlers leave the contents of nodes as they are. -/
theorem Covered.leads (hkeeps : b.KeepsContents) {events : List Event} (h : s.Covered)
    (hleads : Leads b s events s') : s'.Covered := by
  have hrun : s.run b (Feed.afterEvents events .done) = (s', none) := hleads .done
  obtain ⟨horderly, hdebt⟩ := orderly_run _ h.orderly (congrArg Prod.snd hrun)
  rw [hrun] at horderly hdebt
  exact ⟨horderly, (hdebt hkeeps).trans h.even⟩

/-- A node is built for an element that is entered where the document says so. -/
theorem Stands.materializing_eq (h : s.Stands book path before) (name : String)
    (attributes : Table Value) :
    (s.entering name attributes).2.materializing = book.builds (path ++ [name]) := by
  obtain ⟨hflushed, hgrown⟩ := h.place.flushed
  have hframe : (s.entering name attributes).2 =
      (((s.stack.mapTop (·.flush false)).enter name attributes).1.start s.ledger).1 := rfl
  rw [Frame.start_eq rfl] at hframe
  have hclose := (hflushed.stands_enter name attributes).closeRules_eq
  have hwanted : ((s.stack.mapTop (·.flush false)).enter name attributes).1.materializing =
      ((s.stack.mapTop (·.flush false)).building ||
        !((s.stack.mapTop (·.flush false)).enter name attributes).1.closeRules.isEmpty) := rfl
  have hcloses : (!((book.selecting (path ++ [name])).filter
      fun r => r.onClose.isSome).isEmpty) = book.closes (path ++ [name]) := by
    rw [Bool.eq_iff_iff]
    simp [RuleBook.closes, Rule.wantsNode, Option.isSome_iff_ne_none]
  rw [hframe]
  dsimp only
  rw [hwanted, hclose, hcloses, hgrown.building_eq, h.building_eq, book.builds_concat]

/-- What is known of an element that is entered is what the document says of it. -/
theorem Stands.ledger_entering (h : s.Stands book path before) (name : String)
    (attributes : Table Value) :
    (s.entering name attributes).1.ledger =
      if book.builds (path ++ [name]) = true then
        s.ledger.created ⟨book.tag path before name attributes, []⟩
      else s.ledger := by
  obtain ⟨hbegun, -⟩ := begun_entering h.place name attributes
  have hwanted := h.materializing_eq name attributes
  let f := ((s.stack.mapTop (·.flush false)).enter name attributes).1
  have hframe : (s.entering name attributes).2 = (f.start s.ledger).1 := rfl
  have hledger : (s.entering name attributes).1.ledger = (f.start s.ledger).2 := rfl
  rw [hledger]
  by_cases hbuilds : book.builds (path ++ [name]) = true
  · rw [hbuilds] at hwanted
    have htag := hbegun.stands.tag_eq (hbegun.stands.path_eq (.inl hwanted))
    rw [hbegun.attributes_eq] at htag
    rw [hframe, Frame.start_eq rfl] at hwanted htag
    have hstart : (f.start s.ledger).2 = s.ledger.created ⟨f.tag, []⟩ := by
      rw [Frame.start, if_pos hwanted]
    rw [hstart, if_pos hbuilds, ← htag]
    rfl
  · rw [hframe, Frame.start_eq rfl] at hwanted
    rw [Frame.start, if_neg (fun hbuilt => hbuilds (hwanted.symm.trans hbuilt)), if_neg hbuilds]

/-- An element is read: the sessions in front of it, in front of everything inside it, behind that
and behind the element. -/
structure Crossing (b : Behavior H σ) (book : RuleBook H) (path before : List String)
    (name : String) (attributes : Table Value) (inside : Forest) (depth : Nat)
    (s s₁ s₂ s₃ : Session H σ) : Prop where
  /-- The element is entered. -/
  entered : Leads b s [.opened name attributes (depth + 1)] s₁
  /-- Everything inside it is read. -/
  read : Leads b s₁ (inside.events (depth + 1)) s₂
  /-- The element is left. -/
  left : Leads b s₂ [.closed name (depth + 1)] s₃
  /-- The place inside the element. -/
  within : s₁.Stands book (path ++ [name]) []
  /-- The place behind it. -/
  behind : s₃.Stands book path (before ++ [name])
  /-- The elements around it are still open. -/
  grown : s.stack.Grown s₃.stack
  /-- The node of the element is built, if there is to be one. -/
  created : s₁.ledger =
    if book.builds (path ++ [name]) = true then
      s.ledger.created ⟨book.tag path before name attributes, []⟩
    else s.ledger
  /-- Without a node nothing more is held. -/
  held_eq : book.builds (path ++ [name]) = false →
    Frame.held s₁.stack.frames = Frame.held s.stack.frames
  /-- The node is given up at most, and that only where it is the outermost one. -/
  released : ∃ freed, s₃.ledger = { s₂.ledger with freed } ∧
    (book.builds path = true ∨ book.builds (path ++ [name]) = false → freed = s₂.ledger.freed)

/-- A row that begins with an element is read: the element is, and then the rest. -/
theorem crossing (hb : b.Returns) {name : String} {attributes : Table Value}
    {inside rest : Forest} {depth : Nat} (h : s.Stands book path before)
    (hleads : Leads b s ((Forest.element name attributes inside rest).events depth) s') :
    ∃ s₁ s₂ s₃, Crossing b book path before name attributes inside depth s s₁ s₂ s₃ ∧
      Leads b s₃ (rest.events depth) s' := by
  have hview : Visit.Fair b Visit.place := .inr fun _ _ h => h
  obtain ⟨s₁, hentered, hgoing₁, hplace₁, -⟩ :=
    reads_opened hb hview h.going h.place name attributes (depth + 1)
  obtain ⟨s₂, hread, hreads₂⟩ := run_forest hb hview inside (depth + 1) hgoing₁ hplace₁
  obtain ⟨s₃, hwhole, hreads₃⟩ := reads_element hb hview name attributes inside depth
    (fun s hgoing h => run_forest hb hview inside (depth + 1) hgoing h) h.going h.place rest
  have hleft : Leads b s₂ [.closed name (depth + 1)] s₃ :=
    .rest (inside.events (depth + 1))
      (.rest [.opened name attributes (depth + 1)] hwhole hentered) hread
  have hrest : Leads b s₃ (rest.events depth) s' := by
    refine .rest (.opened name attributes (depth + 1) ::
      (inside.events (depth + 1) ++ [.closed name (depth + 1)])) ?_ hwhole
    rw [List.cons_append, List.append_assoc]
    exact hleads
  obtain ⟨f, hstack₁, htouched, hledger₁⟩ := hentered.opened h.place.sound
  obtain ⟨haround, hgrown⟩ := h.place.around name
  have hwanted : f.materializing = book.builds (path ++ [name]) :=
    htouched.kin.materializing_eq.trans (h.materializing_eq name attributes)
  refine ⟨s₁, s₂, s₃, ⟨hentered, hread, hleft, ⟨hgoing₁, hplace₁, ?_⟩,
    ⟨hreads₃.going, hreads₃.place, hreads₃.grown.building_eq.trans h.building_eq⟩, hreads₃.grown,
    hledger₁.trans (h.ledger_entering name attributes), fun hplain => ?_, ?_⟩, hrest⟩
  · rw [hstack₁]
    exact hwanted
  · have hsound := hplace₁.sound f (by rw [hstack₁]; exact List.mem_cons_self)
    rw [hstack₁, Stack.push, Frame.held_cons, hsound.weight_eq_zero (hwanted.trans hplain),
      Nat.zero_add]
    exact (Stack.around_kept s.stack name).2
  · obtain ⟨g, hgrew, hstack₂⟩ := Stack.Grown.of_push (hstack₁ ▸ hreads₂.grown)
    have hsound := hreads₂.place.sound g (by rw [hstack₂]; exact List.mem_cons_self)
    obtain ⟨freed, hfreed, hkept⟩ := hleft.closed hstack₂ hsound
    rw [hgrew.kin.materializing_eq, hwanted, hgrown.building_eq, h.building_eq] at hkept
    exact ⟨freed, hfreed, hkept⟩

/-- A text is read: nothing happens to the books. -/
theorem crossing_text {text : String} {rest : Forest} {depth : Nat}
    (h : s.Stands book path before)
    (hleads : Leads b s ((Forest.text text rest).events depth) s') :
    ∃ s₁, Leads b s [.text text depth] s₁ ∧ s₁.Stands book path before ∧
      s.stack.Grown s₁.stack ∧ s₁.ledger = s.ledger ∧ Leads b s₁ (rest.events depth) s' := by
  obtain ⟨s₁, hread, hreads⟩ := reads_text b Visit.place h.going h.place text depth rest
  exact ⟨s₁, hread, ⟨hreads.going, hreads.place, hreads.grown.building_eq.trans h.building_eq⟩,
    hreads.grown, hread.ledger_text, Leads.rest [.text text depth] hleads hread⟩

/-- **What is built for a row.** The nodes that the document says are built, and the observers are
told of them. Inside an element that a node is built for none of them is given up. -/
theorem builds_forest (hb : b.Returns) (forest : Forest) (depth : Nat)
    (h : s.Stands book path before) (hleads : Leads b s (forest.events depth) s') :
    s.ledger.Builds (forest.built book path before) s'.ledger ∧
      (book.builds path = true →
        s'.ledger = s.ledger.createdAll (forest.built book path before)) := by
  induction forest generalizing s s' path before depth with
  | done =>
      rw [← Leads.unique (fun _ => rfl) hleads]
      exact ⟨.refl s.ledger, fun _ => rfl⟩
  | text text rest ih =>
      obtain ⟨s₁, -, h₁, -, hledger, hrest⟩ := crossing_text h hleads
      have hbuilds := ih depth h₁ hrest
      rw [hledger] at hbuilds
      exact hbuilds
  | element name attributes inside rest ihInside ihRest =>
      obtain ⟨s₁, s₂, s₃, hcrossing, hrest⟩ := crossing hb h hleads
      obtain ⟨hinside, hall⟩ := ihInside (depth + 1) hcrossing.within hcrossing.read
      obtain ⟨hbehind, hallRest⟩ := ihRest depth hcrossing.behind hrest
      obtain ⟨freed, hfreed, hkept⟩ := hcrossing.released
      have hcreated : s₁.ledger = s.ledger.createdAll (if book.builds (path ++ [name]) = true then
          [⟨book.tag path before name attributes, []⟩] else []) := by
        rw [hcrossing.created]
        split
        · rfl
        · rfl
      rw [hcreated] at hinside hall
      refine ⟨?_, fun hbuilds => ?_⟩
      · rw [hfreed] at hbehind
        exact (((Ledger.Builds.createdAll s.ledger _).trans hinside).freed freed).trans hbehind
      · have hsame : s₃.ledger = s₂.ledger := by rw [hfreed, hkept (.inl hbuilds)]
        have hwithin : book.builds (path ++ [name]) = true := by
          rw [book.builds_concat, hbuilds, Bool.true_or]
        rw [hallRest hbuilds, hsame, hall hwithin, Forest.built, Ledger.createdAll_append,
          Ledger.createdAll_append]

/-- While an element is read that a node is built for, there are never more nodes than it is made
of, and once there are as many, if nothing was held before. -/
theorem Crossing.peak_eq (hb : b.Returns) {name : String} {attributes : Table Value}
    {inside : Forest} {depth : Nat} {s₃ : Session H σ}
    (h : Crossing b book path before name attributes inside depth s s₁ s₂ s₃)
    (hcovered : s.Covered) (hheld : Frame.held s.stack.frames = 0)
    (hbuilds : book.builds (path ++ [name]) = true) :
    s₂.ledger.peak = max s.ledger.peak (inside.size + 1) := by
  obtain ⟨-, hall⟩ := builds_forest hb inside (depth + 1) h.within h.read
  specialize hall hbuilds
  rw [h.created, if_pos hbuilds, ← Ledger.createdAll_cons] at hall
  have heven := hcovered.even
  rw [debt, hheld] at heven
  rw [hall, Ledger.peak_createdAll, Forest.length_built_of_builds hbuilds]
  omega

/-- **How many nodes there are at once.** Outside the elements that nodes are built for there are
never more than the largest of the outermost ones is made of, and once there are as many, as long as
handlers leave the contents of nodes as they are. -/
theorem peak_forest (hb : b.Returns) (hkeeps : b.KeepsContents) (forest : Forest) (depth : Nat)
    (h : s.Stands book path before) (hcovered : s.Covered) (hplain : book.builds path = false)
    (hheld : Frame.held s.stack.frames = 0) (hleads : Leads b s (forest.events depth) s') :
    s'.ledger.peak = max s.ledger.peak ((forest.outermost book path).foldr max 0) := by
  induction forest generalizing s s' path before depth with
  | done =>
      rw [← Leads.unique (fun _ => rfl) hleads]
      exact (Nat.max_zero _).symm
  | text text rest ih =>
      obtain ⟨s₁, hread, h₁, hgrown, hledger, hrest⟩ := crossing_text h hleads
      have hheld₁ := hgrown.held_eq h.place.sound (h.building_eq.trans hplain)
      have hpeak := ih depth h₁ (hcovered.leads hkeeps hread) hplain (hheld₁.trans hheld) hrest
      rw [hledger] at hpeak
      exact hpeak
  | element name attributes inside rest ihInside ihRest =>
      obtain ⟨s₁, s₂, s₃, hcrossing, hrest⟩ := crossing hb h hleads
      obtain ⟨freed, hfreed, hkept⟩ := hcrossing.released
      have hcovered₁ := hcovered.leads hkeeps hcrossing.entered
      have hcovered₃ := (hcovered₁.leads hkeeps hcrossing.read).leads hkeeps hcrossing.left
      have hheld₃ := hcrossing.grown.held_eq h.place.sound (h.building_eq.trans hplain)
      have hbehind := ihRest depth hcrossing.behind hcovered₃ hplain (hheld₃.trans hheld) hrest
      have hpeak : s₃.ledger.peak = s₂.ledger.peak := by rw [hfreed]
      have hwithin : book.builds (path ++ [name]) = book.closes (path ++ [name]) := by
        rw [book.builds_concat, hplain, Bool.false_or]
      rw [hbehind, hpeak, Forest.outermost, foldr_max_append, ← Nat.max_assoc]
      -- it is enough to look at the element itself
      refine congrArg (max · _) ?_
      cases hcloses : book.closes (path ++ [name]) with
      | false =>
          have hplain₁ := hwithin.trans hcloses
          have hledger : s₁.ledger = s.ledger := by
            rw [hcrossing.created, hplain₁]
            rfl
          have hinside := ihInside (depth + 1) hcrossing.within hcovered₁ hplain₁
            ((hcrossing.held_eq hplain₁).trans hheld) hcrossing.read
          rw [hledger] at hinside
          exact hinside
      | true => exact hcrossing.peak_eq hb hcovered hheld (hwithin.trans hcloses)

end Session

/-! ### Drives -/

namespace Dispatcher

variable {b : Behavior H σ}

/-- A drive begins above the root, with nothing built and nothing held. -/
theorem session_stands (d : Dispatcher H) (around : Surroundings) (source : Source) (world : σ) :
    (d.engaged.session around source world).Stands d.book [] [] ∧
      (d.engaged.session around source world).Covered ∧
      Frame.held (d.engaged.session around source world).stack.frames = 0 ∧
      (d.engaged.session around source world).ledger = d.ledger.reset := by
  obtain ⟨hgoing, -, horderly, hdebt⟩ := d.session_fresh around source world
  obtain ⟨hstack, -, -⟩ := d.session_begins id around source world
  refine ⟨⟨hgoing, ?_, ?_⟩, ⟨horderly, hdebt⟩, ?_, ?_⟩
  · rw [hstack]
    exact at_ofBook d.book
  · rw [hstack, d.book.builds_nil]
    rfl
  · rw [hstack]
    rfl
  · unfold Dispatcher.session
    dsimp only
    generalize hstart : Session.tell _ _ _ _ = start
    obtain ⟨_, _, hsample⟩ := start.sample_eq "start"
    rw [hsample, ← hstart]
    rfl

/-- **Nodes are built for what close handlers are given, and for nothing else.** Take events that
leave exactly what they enter, and handlers that return and ask for no stop. In the order in which
the elements are entered, a node is built for every element that a rule with a close handler selects
and for every element inside one, and the observers are told of it while nothing stands in it. So
there are as many nodes as the outermost of these elements are made of, all together. Where handlers
leave the contents of nodes as they are, there are never more nodes at once than the largest of
these elements is made of, and once there are as many. -/
theorem drive_builds (d : Dispatcher H) (hidle : d.driving = false) (hb : b.Returns)
    (t : Markup.Tokenizer) (around : Surroundings) (typeName : String) {events : List Event}
    (hnested : Event.nested 0 events = true) (hclosed : (Torn.ofEvents events).around = [])
    (closable : Bool) (world : σ) :
    let ended := d.drive b t around (.items typeName (.ofItems (events.map .event)) closable) world
    let forest := (Torn.ofEvents events).row
    let built := forest.built d.book [] []
    let sizes := forest.outermost d.book []
    forest.Spelled events ∧
      (∃ report, ended.1.result = .ok report ∧ report.completed = true ∧
        report.statistics.nodesCreated = .int ended.2.ledger.built ∧
        report.statistics.peakLiveNodes = .int ended.2.ledger.peak) ∧
      ended.2.ledger.seen = d.ledger.seen ++ Ledger.tidings d.ledger.observers built ∧
      ended.2.ledger.built = built.length ∧ built.length = sizes.sum ∧
      (b.KeepsContents → ended.2.ledger.peak = sizes.foldr max 0) := by
  intro ended forest built sizes
  have hspelled : forest.Spelled events := Torn.spelled_row hnested hclosed
  obtain ⟨s, monitor, records, hleads, hreads, hdrive⟩ := drive_forest Visit.place
    (.inr fun _ _ h => h) d hidle hb t around typeName forest closable world
  obtain ⟨hstands, hcovered, hheld, hledger⟩ := d.session_stands around
    (.items typeName (.ofItems ((forest.events 0).map .event)) closable) world
  obtain ⟨hbuilds, -⟩ := Session.builds_forest hb forest 0 hstands hleads
  have hpeak := fun hkeeps =>
    Session.peak_forest hb hkeeps forest 0 hstands hcovered d.book.builds_nil hheld hleads
  have hended : ended = (outcome { s with monitor, records } none around.elapsed closable,
      { d.engaged with driving := false, ledger := s.ledger }) :=
    (drive_mark hidle b t around typeName hspelled closable world).trans hdrive
  rw [hledger] at hbuilds hpeak
  rw [hended]
  refine ⟨hspelled, ⟨_, rfl, ?_, rfl, rfl⟩, hbuilds.seen_eq, ?_, Forest.length_built
    d.book.builds_nil [] forest, fun hkeeps => ?_⟩
  · rw [Session.report, Session.stopped, hreads.going]
    rfl
  · exact hbuilds.built_eq.trans (Nat.zero_add _)
  · exact (hpeak hkeeps).trans (Nat.zero_max _)

/-- A list with two items in it, of which the first one has something inside it. -/
def unevenList : List Event :=
  [.opened "list" [] 1, .opened "item" [] 2, .opened "b" [] 3, .closed "b" 3, .closed "item" 2,
    .opened "item" [] 2, .closed "item" 2, .closed "list" 1]

/-- A dispatcher with a rule for items and with an observer. -/
def observed : Dispatcher Unit := { lister with ledger := { observers := ["log"] } }

/-- For a list with two items nodes are built for the items and for what is inside them, and there
are never more than two at once. -/
theorem drive_builds_unevenList :
    let ended := observed.drive Behavior.still refusing calm
      (.items "list" (.ofItems (unevenList.map .event)) false) ()
    observed.driving = false ∧ (Behavior.still : Behavior Unit Unit).Returns ∧
      (Behavior.still : Behavior Unit Unit).KeepsContents ∧ Event.nested 0 unevenList = true ∧
      (Torn.ofEvents unevenList).around = [] ∧
      ended.2.ledger.seen.map (fun told => (told.1, told.2.tag.path)) =
        [("log", "/list/item"), ("log", "/list/item/b"), ("log", "/list/item")] ∧
      ended.2.ledger.built = 3 ∧ ended.2.ledger.peak = 2 := by
  intro ended
  have hkeeps : (Behavior.still : Behavior Unit Unit).KeepsContents := fun _ _ _ => rfl
  have hnested : Event.nested 0 unevenList = true := rfl
  obtain ⟨-, -, hseen, hbuilt, -, hpeak⟩ := drive_builds observed rfl Behavior.still_returns
    refusing calm "list" hnested rfl false ()
  refine ⟨rfl, Behavior.still_returns, hkeeps, hnested, rfl, ?_, hbuilt.trans ?_,
    (hpeak hkeeps).trans ?_⟩
  · rw [hseen]
    decide +kernel
  · decide +kernel
  · decide +kernel

/-- Handlers that put an element into every node. -/
def stuffing : Behavior Unit Unit :=
  fun _ w => .append (.element ⟨"b", "/b", [], .int 1, .keep⟩ []) (.finish w)

/-- It is not enough that handlers return. If they put nodes into the nodes that they are given,
these are given up without having been built, and there seem to be fewer nodes than there are; if
one of them asks for a stop, nothing is built for the elements behind. -/
theorem not_builds_of_returning :
    (¬ ∀ (d : Dispatcher Unit) (b : Behavior Unit Unit), d.driving = false → b.Returns →
        ∀ (t : Markup.Tokenizer) (around : Surroundings) (typeName : String) (events : List Event)
          (closable : Bool) (world : Unit), Event.nested 0 events = true →
          (Torn.ofEvents events).around = [] →
            (d.drive b t around (.items typeName (.ofItems (events.map .event)) closable)
              world).2.ledger.peak =
                ((Torn.ofEvents events).row.outermost d.book []).foldr max 0) ∧
      ¬ ∀ (d : Dispatcher Unit) (b : Behavior Unit Unit), d.driving = false →
        (∀ (c : Call Unit) (w : Unit) (t : Turn Unit), ((b c w).run t).2.2 = none) →
        b.KeepsContents →
        ∀ (t : Markup.Tokenizer) (around : Surroundings) (typeName : String) (events : List Event)
          (closable : Bool) (world : Unit), Event.nested 0 events = true →
          (Torn.ofEvents events).around = [] →
            (d.drive b t around (.items typeName (.ofItems (events.map .event)) closable)
              world).2.ledger.built = ((Torn.ofEvents events).row.built d.book [] []).length := by
  constructor
  · intro h
    have hreturns : stuffing.Returns := by
      intro c w t
      exact ⟨rfl, Action.stopPath_append t _⟩
    exact absurd (h lister stuffing rfl hreturns refusing calm "list"
      [.opened "list" [] 1, .opened "item" [] 2, .closed "item" 2, .opened "item" [] 2,
        .opened "b" [] 3, .closed "b" 3, .closed "item" 2, .closed "list" 1] false () rfl rfl)
      (by decide +kernel)
  · intro h
    have hkeeps : stopping.KeepsContents := fun _ _ t => congrArg Frame.contents t.frame_stop
    exact absurd (h lister stopping rfl (fun _ _ _ => rfl) hkeeps refusing calm "list" unevenList
      false () rfl rfl) (by decide +kernel)

end Dispatcher

end MarkupRouting
