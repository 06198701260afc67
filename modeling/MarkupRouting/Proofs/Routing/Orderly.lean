import MarkupRouting.Proofs.Routing.Moments

/-!
# What stays in order whatever comes

The books of a drive are right and every end can name its path as long as all names and texts are
texts and handlers leave the contents of nodes as they are. Something stays in order without either:
which frames have nodes. What the books are wrong by does not depend on names and texts.

* **Frame.Shape**, **Stack.Orderly** — the little of a stack that this depends on: a frame has a
  node where one is to be built, and above such a frame all elements have names.
* **Session.debt** — by how much more is held or was given up than was built.
* **Session.orderly_stage** — what comes before the calls keeps the order and adds nothing to the
  debt.
* **Session.orderly_run** — neither does a drive whose handlers leave the contents of nodes as they
  are.
* **Session.orderly_moment** — a handler is called only where every open element has a name.
-/

namespace MarkupRouting

variable {H σ : Type}

/-! ### Shapes -/

/-- The little of a frame that tells whether a drive can go on with it. -/
structure Frame.Shape where
  /-- There is a node. -/
  built : Bool
  /-- A node is to be built. -/
  wanted : Bool
  /-- The name of the element is a text. -/
  named : Bool

namespace Frame

variable {f g : Frame H}

/-- The shape of a frame. -/
def shape (f : Frame H) : Shape := ⟨f.contents.isSome, f.materializing, f.misnomer.isNone⟩

/-- The shape of a frame does not show texts that are put in place. -/
theorem shape_flush (f : Frame H) (closing : Bool) : (f.flush closing).shape = f.shape := by
  obtain ⟨contents, buffer, heq, hsome, -⟩ := f.flush_eq closing
  rw [heq]
  simp only [shape, hsome]

/-- The shape of a frame does not show its last text either. -/
theorem shape_complete (f : Frame H) : f.complete.shape = f.shape := f.shape_flush true

/-- The shape of a frame does not show texts held back. -/
theorem shape_addText (f : Frame H) (s : String) : (f.addText s).shape = f.shape := by
  obtain ⟨buffer, heq⟩ := f.addText_eq s
  rw [heq]
  rfl

/-- The shape of a frame does not show that something that is no text is held back. -/
theorem shape_spoil (f : Frame H) : f.spoil.shape = f.shape := by
  unfold Frame.spoil
  split <;> rfl

/-- What is done to the top frame between two elements leaves its shape. -/
theorem Touched.shape_eq (h : f.Touched g) : g.shape = f.shape := by
  obtain ⟨attributes, contents, remade, rfl, hsome⟩ := h
  simp only [shape, hsome]

/-- Texts held back hold no node. -/
theorem weight_addText (f : Frame H) (s : String) : (f.addText s).weight = f.weight := by
  obtain ⟨buffer, heq⟩ := f.addText_eq s
  rw [heq]
  rfl

/-- Neither does what is no text. -/
theorem weight_spoil (f : Frame H) : f.spoil.weight = f.weight := by
  unfold Frame.spoil
  split <;> rfl

end Frame

namespace Stack

variable {st st' : Stack H}

/-- The shapes of the frames, the innermost one first. -/
def shapes (st : Stack H) : List Frame.Shape := st.frames.map Frame.shape

/-- Frames have nodes where nodes are to be built, and around an element whose frame has one all
elements have names. -/
structure Orderly (st : Stack H) : Prop where
  /-- There are nodes where nodes are to be built. -/
  built : ∀ k ∈ st.shapes, k.built = k.wanted
  /-- Elements around one that is built have names. -/
  named : st.shapes.Pairwise fun inner outer => inner.built = true → outer.named = true

/-- Whether a stack is in order is told by the shapes of its frames. -/
theorem Orderly.of_shapes (h : st.Orderly) (heq : st'.shapes = st.shapes) : st'.Orderly := by
  obtain ⟨hbuilt, hnamed⟩ := h
  rw [← heq] at hbuilt hnamed
  exact ⟨hbuilt, hnamed⟩

/-- A frame on top of a stack in order: it has contents exactly if it is to have them, and a path
then. -/
theorem Orderly.push {f : Frame H} (h : st.Orderly) (hf : f.contents.isSome = f.materializing)
    (hnamed : f.contents.isSome = true → st.hasPath = true) : (st.push f).Orderly := by
  constructor
  · intro k hk
    rcases List.mem_cons.mp hk with rfl | hk
    · exact hf
    · exact h.built k hk
  · refine List.pairwise_cons.mpr ⟨fun k hk hbuilt => ?_, h.named⟩
    obtain ⟨outer, houter, rfl⟩ := List.mem_map.mp hk
    exact List.all_eq_true.mp (hnamed hbuilt) outer houter

/-- What stands around the top frame of a stack in order is in order. -/
theorem Orderly.around {f : Frame H} (h : (st.push f).Orderly) : st.Orderly :=
  ⟨fun k hk => h.built k (List.mem_cons_of_mem f.shape hk), (List.pairwise_cons.mp h.named).2⟩

/-- Around an element that is built all elements have names. -/
theorem Orderly.hasPath {f : Frame H} (h : (st.push f).Orderly) (hf : f.contents.isSome = true) :
    st.hasPath = true :=
  List.all_eq_true.mpr fun outer houter =>
    (List.pairwise_cons.mp h.named).1 outer.shape (List.mem_map_of_mem houter) hf

/-- A change of the top frame that leaves its shape leaves all shapes. -/
theorem shapes_mapTop {g : Frame H → Frame H} (hg : ∀ f, (g f).shape = f.shape) :
    (st.mapTop g).shapes = st.shapes := by
  unfold Stack.mapTop
  split
  · rfl
  next f rest hframes => simp only [shapes, hframes, List.map_cons, hg]

/-- A change of the top frame that leaves its nodes leaves all that are held. -/
theorem held_mapTop {g : Frame H → Frame H} (hg : ∀ f, (g f).weight = f.weight) :
    Frame.held (st.mapTop g).frames = Frame.held st.frames := by
  unfold Stack.mapTop
  split
  · rfl
  next f rest hframes => rw [hframes, Frame.held_cons, Frame.held_cons, hg]

/-- A place among siblings (`next_position`) does not show in shapes. -/
theorem shapes_claimPosition (st : Stack H) (name : String) :
    (st.claimPosition name).2.shapes = st.shapes := by
  unfold Stack.claimPosition
  split
  · rfl
  next parent rest hframes =>
    simp only [shapes, hframes, List.map_cons]
    rfl

/-- A place among siblings holds no node. -/
theorem held_claimPosition (st : Stack H) (name : String) :
    Frame.held (st.claimPosition name).2.frames = Frame.held st.frames := by
  unfold Stack.claimPosition
  split
  · rfl
  next parent rest hframes =>
    rw [hframes, Frame.held_cons, Frame.held_cons]
    rfl

/-- The stack above which an element is entered has the frames it had, as far as that matters. -/
theorem around_kept (st : Stack H) (name : String) :
    (st.around name).shapes = st.shapes ∧
      Frame.held (st.around name).frames = Frame.held st.frames :=
  ⟨(shapes_claimPosition _ name).trans (shapes_mapTop fun f => f.shape_flush false),
    (held_claimPosition _ name).trans (held_mapTop fun f => f.weight_flush false)⟩

/-- Whether all open elements have names that are texts is told by the shapes. -/
theorem hasPath_of_shapes (heq : st'.shapes = st.shapes) : st'.hasPath = st.hasPath := by
  have hall : ∀ st : Stack H, st.hasPath = st.shapes.all Frame.Shape.named := by
    intro st
    rw [shapes, List.all_map]
    rfl
  rw [hall, hall, heq]

/-- What becomes of the node of an element that was left: the stack around it takes it in where it
builds nodes, else it is given up. -/
theorem settle_kept (hst : st.Orderly) (f : Frame H) (l : Ledger) :
    ∃ fate st' l', st.settle f l = .ok (fate, st', l') ∧ st'.shapes = st.shapes ∧
      l'.built = l.built ∧
      Frame.held st'.frames =
        (if st.building then f.weight + Frame.held st.frames else Frame.held st.frames) ∧
      l'.freed + Frame.held st'.frames = l.freed + (f.weight + Frame.held st.frames) := by
  unfold Stack.settle Stack.building
  cases hnode : f.node? with
  | none =>
      refine ⟨_, _, _, rfl, rfl, rfl, ?_, ?_⟩
      · simp [Frame.weight_eq_zero hnode]
      · rw [Frame.weight_eq_zero hnode, Nat.zero_add]
  | some n =>
      rw [Frame.weight_eq_size hnode]
      cases hframes : st.frames with
      | nil => exact ⟨_, _, _, rfl, rfl, rfl, by simp [hframes], by simp [hframes, Ledger.released]⟩
      | cons parent rest =>
          cases hparent : parent.materializing with
          | false =>
              simp only [hparent, Bool.false_eq_true, ↓reduceIte]
              refine ⟨_, _, _, rfl, rfl, rfl, by rw [hframes], ?_⟩
              simp only [Ledger.released, hframes]
              omega
          | true =>
              simp only [hparent, ↓reduceIte]
              have hbuilt : parent.contents.isSome = true :=
                (hst.built parent.shape (by simp [shapes, hframes])).trans hparent
              obtain ⟨contents, hadopt, hsome, hweight⟩ := Frame.adopt_of_built hbuilt n
              rw [hadopt]
              refine ⟨_, _, _, rfl, ?_, rfl, ?_, ?_⟩
              · simp only [shapes, hframes, List.map_cons, Frame.shape, hsome, hbuilt]
              · simp only [Frame.held_cons, hweight]
                omega
              · simp only [Frame.held_cons, hweight]
                omega

end Stack

/-! ### Sessions -/

namespace Session

/-- What stays in order whatever comes, as long as no fault ends the drive: a frame has contents
exactly if its node is to be built, an element that is built stands inside elements with names, and
nothing but warnings was reported. No handler can disturb it, since all it can change are the
contents and what is made of the node. -/
structure Orderly (s : Session H σ) : Prop where
  /-- The stack is in order. -/
  stack : s.stack.Orderly
  /-- No element was refused for its name. -/
  named : s.nameless = false
  /-- So far nothing but warnings was reported. -/
  warned : ∀ d ∈ s.diagnostics, d.severity = .warning

/-- By how much fewer nodes were built than were given up or are held. It is zero as long as
handlers leave the contents of nodes as they are; a node that one puts in adds to it, one that it
takes out takes away. -/
def debt (s : Session H σ) : Int := s.ledger.freed + Frame.held s.stack.frames - s.ledger.built

variable {b : Behavior H σ} {s s' : Session H σ}

/-- A session with another stack of the same shape and the same ledger is as it was. -/
theorem Orderly.restack (h : s.Orderly) (st : Stack H) (hshapes : st.shapes = s.stack.shapes)
    (hheld : Frame.held st.frames = Frame.held s.stack.frames) (tally : Tally)
    (records : List Log.Record) :
    ({ s with stack := st, tally, records } : Session H σ).Orderly ∧
      ({ s with stack := st, tally, records } : Session H σ).debt = s.debt := by
  refine ⟨⟨h.stack.of_shapes hshapes, h.named, h.warned⟩, ?_⟩
  simp only [debt, hheld]

/-- The frame that an element begins with takes nothing from the books. -/
theorem Orderly.entering (h : s.Orderly) (name : String) (attributes : Table Value)
    (hpath : (s.entering name attributes).2.path.isSome = true → s.stack.hasPath = true) :
    let whole : Session H σ := { (s.entering name attributes).1 with
      stack := (s.entering name attributes).1.stack.push (s.entering name attributes).2 }
    whole.Orderly ∧ whole.debt = s.debt := by
  intro whole
  obtain ⟨hshapes, hheld⟩ := Stack.around_kept s.stack name
  let f := ((s.stack.mapTop (·.flush false)).enter name attributes).1
  obtain ⟨hsound, hbuilt, hfreed⟩ := Frame.Sound.start (f := f) rfl rfl rfl s.ledger
  have hframe : (s.entering name attributes).2 = (f.start s.ledger).1 := rfl
  have hledger : whole.ledger = (f.start s.ledger).2 := rfl
  constructor
  · refine ⟨(h.stack.of_shapes hshapes).push hsound.built fun hsome => ?_, h.named, h.warned⟩
    -- a node needs a path, and without one the element would not have been entered
    rw [Stack.hasPath_of_shapes hshapes]
    apply hpath
    rw [hframe, Frame.path_start]
    have hwanted : f.materializing = true := by
      rw [hframe, hsound.built, Frame.start_eq rfl] at hsome
      exact hsome
    have hclaimed : f.path = some (pathOf ((s.stack.mapTop (·.flush false)).names ++ [name])) := by
      have hcond : (f.materializing || !f.openRules.isEmpty) = true := by rw [hwanted]; rfl
      exact if_pos hcond
    rw [hclaimed]
    rfl
  · have hall : Frame.held whole.stack.frames =
        (f.start s.ledger).1.weight + Frame.held (s.stack.around name).frames :=
      Frame.held_cons _ _
    rw [debt, debt, hledger, hall, hbuilt, hfreed, hheld]
    push_cast
    omega

/-- Neither does that of an element with a name that is no text, which nobody is told of. -/
theorem Orderly.misnaming (h : s.Orderly) (name : Value)
    (hpath : (s.misnaming name).path.isSome = false) :
    let whole : Session H σ := { s with stack := (s.stack.around "").push (s.misnaming name) }
    whole.Orderly ∧ whole.debt = s.debt := by
  intro whole
  obtain ⟨hshapes, hheld⟩ := Stack.around_kept s.stack ""
  have hplain : (s.misnaming name).materializing = false := by
    by_contra hwanted
    rw [Bool.not_eq_false] at hwanted
    have hcond : ((s.misnaming name).materializing || !(s.misnaming name).openRules.isEmpty) =
        true := by rw [hwanted]; rfl
    have hclaimed : (s.misnaming name).path =
        some (pathOf ((s.stack.mapTop (·.flush false)).names ++ [""])) := if_pos hcond
    rw [hclaimed] at hpath
    cases hpath
  refine ⟨⟨(h.stack.of_shapes hshapes).push hplain.symm fun hbuilt => ?_, h.named, h.warned⟩, ?_⟩
  · exact absurd hbuilt Bool.false_ne_true
  · have hall : Frame.held whole.stack.frames = Frame.held (s.stack.around "").frames :=
      (Frame.held_cons _ _).trans (Nat.zero_add _)
    rw [debt, hall, hheld]
    rfl

/-- What comes before the calls keeps the order and adds nothing to the debt. -/
theorem orderly_stage (h : s.Orderly) (i : Item) (hfine : (s.stage i).Fine) :
    (s.stage i).whole.Orderly ∧ (s.stage i).whole.debt = s.debt := by
  have hstaged := s.staged i
  generalize s.stage i = g at hstaged hfine ⊢
  cases hstaged with
  | entered name attributes depth hpath => exact h.entering name attributes hpath
  | misnamed name hpath =>
      obtain ⟨⟨hstack, hnamed, hwarned⟩, hdebt⟩ := h.misnaming name hpath
      exact ⟨⟨hstack, hnamed, hwarned⟩, hdebt⟩
  | heard text depth =>
      exact h.restack _ (Stack.shapes_mapTop fun f => f.shape_addText text)
        (Stack.held_mapTop fun f => f.weight_addText text) s.tally s.records
  | dropped => exact ⟨h, rfl⟩
  | reported text depth =>
      refine ⟨⟨h.stack, h.named, fun d hd => ?_⟩, rfl⟩
      rcases List.mem_append.mp hd with hd | hd
      · exact h.warned d hd
      · rw [List.mem_singleton.mp hd]
  | spoilt =>
      exact h.restack _ (Stack.shapes_mapTop fun f => f.shape_spoil)
        (Stack.held_mapTop fun f => f.weight_spoil) s.tally s.records
  | left name depth f rest hframes =>
      refine h.restack { s.stack with frames := f.complete :: rest } ?_ ?_ s.tally.left s.records
      · simp only [Stack.shapes, hframes, List.map_cons, Frame.shape_complete]
      · rw [hframes, Frame.held_cons, Frame.held_cons, Frame.weight_complete]
  | refused | unheard | torn | nothing | foreign => cases hfine

end Session

/-! ### Calls -/

namespace Session

variable {b : Behavior H σ} {s s' : Session H σ} {m : Moment H σ}

/-- Behind the calls the order is kept. Handlers that leave the contents of nodes as they are add
nothing to the debt. -/
theorem orderly_complete {g : Stage H σ} (h : g.whole.Orderly)
    (hcomplete : g.complete b = (s', none)) :
    s'.Orderly ∧ (b.KeepsContents → s'.debt = g.whole.debt) := by
  cases g with
  | settled s fault =>
      obtain ⟨rfl, -⟩ := Prod.mk.inj hcomplete
      exact ⟨h, fun _ => rfl⟩
  | calling phase rules s f =>
      have hbeside := invokeAll_beside b phase rules s f
      have htouched := touched_invokeAll b phase rules s f
      have hweight : b.KeepsContents →
          (invokeAll b phase rules s f).2.1.weight = f.weight := by
        intro hkeeps
        rw [Frame.weight, contents_invokeAll hkeeps, Frame.weight]
      have hall : ∀ f : Frame H, Frame.held (s.stack.push f).frames =
          f.weight + Frame.held s.stack.frames := fun f => Frame.held_cons f _
      simp only [Stage.complete] at hcomplete
      generalize invokeAll b phase rules s f = called at *
      obtain ⟨s₁, f₁, fault⟩ := called
      obtain ⟨_, _, _, _, _, rfl⟩ := hbeside
      have hwhole : (Stage.calling phase rules s f).whole.debt =
          s.ledger.freed + (f.weight + Frame.held s.stack.frames : Nat) - s.ledger.built := by
        rw [debt, ← hall f]
        rfl
      rw [hwhole]
      dsimp only at hweight htouched
      cases phase with
      | opening =>
          obtain ⟨rfl, -⟩ := Prod.mk.inj hcomplete
          refine ⟨⟨h.stack.of_shapes ?_, h.named, h.warned⟩, fun hkeeps => ?_⟩
          · simp only [Stage.whole, Stack.shapes, Stack.push, List.map_cons, htouched.shape_eq]
          · rw [debt]
            dsimp only
            rw [hall f₁, hweight hkeeps]
      | closing =>
          obtain ⟨fate, st, l, records, hsettled, rfl⟩ := settle_of_afterCalls hcomplete
          obtain ⟨_, _, _, hsettle, hshapes, hbuilt, -, hfreed⟩ :=
            Stack.settle_kept h.stack.around f₁ s.ledger
          cases hsettle.symm.trans hsettled
          refine ⟨⟨h.stack.around.of_shapes hshapes, h.named, h.warned⟩, fun hkeeps => ?_⟩
          show (l.freed + Frame.held st.frames - l.built : Int) = _
          rw [hbuilt, ← hweight hkeeps]
          omega

/-- Where an item is taken and no fault ends the drive the order is kept. -/
theorem orderly_take {i : Item} (h : s.Orderly) (htake : s.take b i = (s', none)) :
    s'.Orderly ∧ (b.KeepsContents → s'.debt = s.debt) := by
  have hcounted : s.counted.Orderly := ⟨h.stack, h.named, h.warned⟩
  obtain ⟨s₁, monitor, records, hcomplete, rfl⟩ := complete_of_take htake
  obtain ⟨hwhole, hdebt⟩ := orderly_stage hcounted i (Stage.fine_of_complete hcomplete)
  obtain ⟨horderly, hkept⟩ := orderly_complete hwhole hcomplete
  exact ⟨⟨horderly.stack, horderly.named, horderly.warned⟩, fun hkeeps =>
    (hkept hkeeps).trans hdebt⟩

/-- **The order is kept as long as no fault ends the drive**, and where handlers leave the contents
of nodes as they are nothing is added to the debt. -/
theorem orderly_run (feed : Feed) (h : s.Orderly) (hrun : (s.run b feed).2 = none) :
    (s.run b feed).1.Orderly ∧ (b.KeepsContents → (s.run b feed).1.debt = s.debt) := by
  induction feed generalizing s with
  | done => exact ⟨h, fun _ => rfl⟩
  | fault fault => cases hrun
  | read chunk rest ih => exact ih h hrun
  | note r rest ih => exact ih (s := s.log r) ⟨h.stack, h.named, h.warned⟩ hrun
  | item i rest ih =>
      unfold Session.run at hrun ⊢
      cases htake : s.take b i with
      | mk s' fault =>
          rw [htake] at hrun
          cases fault with
          | some fault => cases hrun
          | none =>
              obtain ⟨horderly, hdebt⟩ := orderly_take h htake
              dsimp only at hrun ⊢
              by_cases hstopped : s'.stopped = true
              · rw [if_pos hstopped]
                exact ⟨horderly, hdebt⟩
              · rw [if_neg hstopped] at hrun ⊢
                obtain ⟨horderly', hdebt'⟩ := ih horderly hrun
                exact ⟨horderly', fun hkeeps => (hdebt' hkeeps).trans (hdebt hkeeps)⟩

end Session

/-- What is in order when a handler is called. -/
structure Moment.Orderly (m : Moment H σ) : Prop where
  /-- Nobody has asked for a stop. -/
  going : m.session.stopPath = none
  /-- With the frame of the element on the stack the session is in order. -/
  whole : ({ m.session with stack := m.session.stack.push m.frame } : Session H σ).Orderly
  /-- The elements around have names. -/
  pathful : m.session.stack.hasPath = true
  /-- An element that is entered has a name itself. -/
  titled : m.phase = .opening → m.frame.misnomer = none

namespace Session

variable {b : Behavior H σ} {s : Session H σ} {m : Moment H σ}

/-- A handler is called for an element only where all elements around it have names. -/
theorem hasPath_of_calling {i : Item} {phase : Phase} {rules : List (Rule H)} {s' : Session H σ}
    {f : Frame H} (h : s.Orderly) (hstage : s.stage i = .calling phase rules s' f)
    (hrules : rules ≠ []) :
    s'.stack.hasPath = true ∧ (phase = .opening → f.misnomer = none) := by
  have hwhole := (orderly_stage h i (by rw [hstage]; trivial)).1
  rw [hstage] at hwhole
  have hstaged := s.staged i
  rw [hstage] at hstaged
  cases hstaged with
  | entered name attributes depth hpath =>
      -- the frame has open rules, hence a path, and was let in with it
      let f := ((s.stack.mapTop (·.flush false)).enter name attributes).1
      have hstart : (s.entering name attributes).2 =
          { f with contents := if f.materializing then some [] else none } :=
        Frame.start_eq rfl s.ledger
      rw [hstart] at hrules hpath ⊢
      refine ⟨?_, fun _ => rfl⟩
      have hopen : f.openRules.isEmpty = false := by simpa using hrules
      have hcond : (f.materializing || !f.openRules.isEmpty) = true := by rw [hopen]; simp
      have hclaimed : f.path = some (pathOf ((s.stack.mapTop (·.flush false)).names ++ [name])) :=
        if_pos hcond
      have hkept : (s.entering name attributes).1.stack.hasPath = s.stack.hasPath :=
        Stack.hasPath_of_shapes (Stack.around_kept s.stack name).1
      rw [hkept]
      dsimp only at hpath
      rw [hclaimed] at hpath
      exact hpath rfl
  | left name depth f rest hframes =>
      have hbuilt : f.complete.contents.isSome = true := by
        by_contra hplain
        exact hrules (if_neg hplain)
      exact ⟨hwhole.stack.hasPath hbuilt, nofun⟩

/-- Everything is in order when a handler is called. -/
theorem orderly_moment (h : s.Orderly) (hgoing : s.stopPath = none) {i : Item}
    (hm : m ∈ (s.stage i).moments b) : m.Orderly := by
  obtain ⟨_, _, _, _, _, _, _, hsession⟩ := s.stage_eq i
  cases hstage : s.stage i with
  | settled s' fault =>
      rw [hstage] at hm
      cases hm
  | calling phase rules s' f =>
      have hwhole := (orderly_stage h i (by rw [hstage]; trivial)).1
      rw [hstage] at hm hwhole hsession
      have hgoing' : s'.stopPath = none := by
        have hsame := congrArg Session.stopPath hsession
        exact hsame.trans hgoing
      obtain ⟨hnone, hbeside, htouched, hphase, hrule⟩ := mem_momentsFrom hgoing' hm
      obtain ⟨hpath, htitled⟩ := hasPath_of_calling h hstage (List.ne_nil_of_mem hrule)
      have hstack := hbeside.stack_eq
      refine ⟨hnone, ⟨?_, ?_, ?_⟩, by rw [hstack]; exact hpath, fun hopening => ?_⟩
      · refine hwhole.stack.of_shapes ?_
        simp only [Stage.whole, Stack.shapes, Stack.push, List.map_cons, hstack, htouched.shape_eq]
      · exact hbeside.nameless_eq.trans hwhole.named
      · obtain ⟨_, _, _, _, _, hsame⟩ := hbeside
        rw [hsame]
        exact hwhole.warned
      · obtain ⟨_, _, _, hsame, -⟩ := htouched
        rw [hsame]
        exact htitled (hphase.symm.trans hopening)

/-- Everything is in order at every call of a drive. -/
theorem orderly_moments (h : s.Orderly) (hgoing : s.stopPath = none) (feed : Feed)
    (hm : m ∈ s.moments b feed) : m.Orderly := by
  obtain ⟨s', i, horderly, hnone, hmem⟩ := mem_moments
    (fun s r (h : s.Orderly) => (⟨h.stack, h.named, h.warned⟩ : (s.log r).Orderly))
    (fun s i s' h _ htake => (orderly_take h htake).1) feed h hgoing hm
  have hcounted : s'.counted.Orderly := ⟨horderly.stack, horderly.named, horderly.warned⟩
  exact orderly_moment hcounted hnone hmem

end Session

end MarkupRouting
