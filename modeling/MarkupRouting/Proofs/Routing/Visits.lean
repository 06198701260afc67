import MarkupRouting.Proofs.Routing.Place

/-!
# The calls for one element

Which handlers are called when an element is entered and when it is left, as the document as a whole
says it, for handlers that return and ask for no stop.

* **Behavior.Returns**, **Behavior.LeavesElements** — such handlers; handlers that change nothing of
  what they are given.
* **Visit.Fair** — a view of calls that shows nothing of what these handlers change.
* **Frame.visit** — the call that is made for the element of a frame.
* **Session.invokeAll_returns**, **Session.calls_at** — several handlers are called one after the
  other; those of an element are called as the document says.
* **Session.enter_at**, **Session.leave_at** — an element is entered and left.
-/

namespace MarkupRouting

variable {H σ α : Type}

/-! ### Handlers -/

namespace Behavior

/-- Whatever they are called with, the handlers return, and they do not ask for the drive to be
stopped. -/
def Returns (b : Behavior H σ) : Prop :=
  ∀ (c : Call H) (w : σ) (t : Turn H),
    ((b c w).run t).2.2 = none ∧ ((b c w).run t).1.stopPath = t.stopPath

/-- Whatever they are called with, the handlers leave what they are given of the element as it is:
its attributes, and everything about its node. -/
def LeavesElements (b : Behavior H σ) : Prop :=
  ∀ (c : Call H) (w : σ) (t : Turn H), ((b c w).run t).1.frame = t.frame

end Behavior

/-- A view of calls shows of what handlers are given only what these handlers leave as it is. -/
def Visit.Fair (b : Behavior H σ) (view : Visit H → α) : Prop :=
  b.LeavesElements ∨ ∀ v w : Visit H, v.place = w.place → view v = view w

/-- Calls look the same that differ only in what handlers change, and only where they do. -/
theorem Visit.Fair.congr {b : Behavior H σ} {view : Visit H → α} (hview : Visit.Fair b view)
    {v w : Visit H} (hplace : v.place = w.place) (hsame : b.LeavesElements → v = w) :
    view v = view w := by
  rcases hview with hleaves | hblind
  · rw [hsame hleaves]
  · exact hblind v w hplace

/-! ### Frames -/

namespace Frame

/-- What a handler is given of the element of a frame. -/
def subject (f : Frame H) : Phase → Subject
  | .opening => .opening
    { name := f.name, path := f.path.getD "", attributes := f.attributes, position := f.position,
      depth := f.depth }
  | .closing => .closing ⟨f.nodeTag, (f.contents.getD []).reverse⟩

/-- The call of a handler for the element of a frame. -/
def visit (f : Frame H) (phase : Phase) (handler : H) (r : Rule H) : Visit H :=
  { handler, phase, rule := r, path := f.path.getD "", depth := f.depth,
    subject := f.subject phase }

/-- The rules whose handlers are called for the element of a frame. -/
def rulesFor (f : Frame H) : Phase → List (Rule H)
  | .opening => f.openRules
  | .closing => f.closeRules

/-- The calls for the element of a frame under several rules, as they are seen. -/
def visits (view : Visit H → α) (f : Frame H) (phase : Phase) (rules : List (Rule H)) : List α :=
  rules.filterMap fun r => (Session.handlerOf phase r).map fun handler =>
    view (f.visit phase handler r)

/-- What earlier handlers did to the element is left out of the place of a call. -/
theorem Touched.place_visit {f g : Frame H} (h : f.Touched g) (phase : Phase) (handler : H)
    (r : Rule H) : (g.visit phase handler r).place = (f.visit phase handler r).place := by
  obtain ⟨attributes, contents, remade, rfl, -⟩ := h
  cases phase with
  | opening => rfl
  | closing => rfl

/-- Later handlers are called as if the earlier ones had not been, as far as it is seen. -/
theorem Touched.visits_eq {b : Behavior H σ} {view : Visit H → α} (hview : Visit.Fair b view)
    {f g : Frame H} (h : f.Touched g) (hsame : b.LeavesElements → g = f) (phase : Phase)
    (rules : List (Rule H)) : g.visits view phase rules = f.visits view phase rules := by
  refine List.filterMap_congr fun r _ => ?_
  refine congrArg (fun k => (Session.handlerOf phase r).map k) (funext fun handler => ?_)
  exact hview.congr (h.place_visit phase handler r) fun hleaves => by rw [hsame hleaves]

variable {f : Frame H} {book : RuleBook H} {path before : List String} {name : String}

/-- The rules whose handlers are called are those that select the element and have one. -/
theorem Stands.rulesFor_eq (hf : f.Stands book path before name) (phase : Phase) :
    f.rulesFor phase =
      (book.selecting (path ++ [name])).filter fun r => (Session.handlerOf phase r).isSome := by
  cases phase with
  | opening => exact hf.openRules_eq
  | closing => exact hf.closeRules_eq

/-- Where a handler is called the path of the element is known. -/
theorem Stands.path_of_rules (hf : f.Stands book path before name) {phase : Phase}
    (hrules : f.rulesFor phase ≠ []) : f.path = some (pathOf (path ++ [name])) := by
  cases phase with
  | opening => exact hf.path_eq (.inr hrules)
  | closing => exact hf.path_eq (.inl (hf.wanted hrules))

/-- What the open handlers are given says where the element is. -/
theorem Stands.subject_opening (hf : f.Stands book path before name)
    (hpath : f.path = some (pathOf (path ++ [name]))) :
    f.subject .opening = .opening (noticeOf path before name f.attributes) := by
  rw [subject, noticeOf, hpath, hf.name_eq, hf.position_eq, hf.depth_eq, Option.getD_some]

/-- What is known of the element is what the document says of it. -/
theorem Stands.tag_eq (hf : f.Stands book path before name)
    (hpath : f.path = some (pathOf (path ++ [name]))) :
    f.tag = book.tag path before name f.attributes := by
  rw [tag, RuleBook.tag, hpath, hf.name_eq, hf.position_eq, hf.mode_eq, Option.getD_some]

/-- The node is the one that the document says, where the attributes and the contents are and nobody
made anything of it. -/
theorem Stands.node?_eq (hf : f.Stands book path before name) (hbuilt : f.materializing = true)
    (hremade : f.remade = none) {attributes : Table Value} (hattributes : f.attributes = attributes)
    {inside : Forest} (hcontents : f.contents.map List.reverse =
      some (inside.contents book (path ++ [name]) [] "")) :
    f.node? = some (book.node path before name attributes inside) := by
  obtain ⟨sofar, hsofar, hreverse⟩ := Option.map_eq_some_iff.mp hcontents
  have htag : f.nodeTag = f.tag := by rw [nodeTag, hremade]; rfl
  rw [node?, hsofar, htag, hf.tag_eq (hf.path_eq (.inl hbuilt)), hattributes, Option.map_some,
    hreverse]
  rfl

/-- What close handlers are given is the node. -/
theorem subject_closing {n : Node} (h : f.node? = some n) : f.subject .closing = .closing n := by
  obtain ⟨sofar, hsofar, rfl⟩ := Option.map_eq_some_iff.mp h
  rw [subject, hsofar]
  rfl

/-- The calls that are made for the element of a frame are those that the document says, as far as
what handlers are given is what it says. -/
theorem Stands.visits_eq {b : Behavior H σ} {view : Visit H → α} (hview : Visit.Fair b view)
    (hf : f.Stands book path before name) (phase : Phase) (subject : Subject)
    (hsubject : f.rulesFor phase ≠ [] →
      (f.subject phase).place = subject.place ∧ (b.LeavesElements → f.subject phase = subject)) :
    f.visits view phase (f.rulesFor phase) =
      (book.visits phase (path ++ [name]) subject).map view := by
  rw [visits, hf.rulesFor_eq, List.filterMap_filter, RuleBook.visits, List.map_filterMap]
  refine List.filterMap_congr fun r hr => ?_
  cases hhandler : Session.handlerOf phase r with
  | none => rfl
  | some handler =>
      have hmem : r ∈ f.rulesFor phase := by
        rw [hf.rulesFor_eq, List.mem_filter]
        exact ⟨hr, by rw [hhandler]; rfl⟩
      have hrules : f.rulesFor phase ≠ [] := List.ne_nil_of_mem hmem
      have hpath := hf.path_of_rules hrules
      obtain ⟨hplace, hsame⟩ := hsubject hrules
      have hlength : (path ++ [name]).length = path.length + 1 := List.length_append
      refine congrArg some (hview.congr ?_ fun hleaves => ?_)
      · rw [visit, Visit.place, Visit.place, hpath, hf.depth_eq, hlength]
        dsimp only
        rw [hplace]
        rfl
      · rw [visit, hpath, hf.depth_eq, hlength, hsame hleaves]
        rfl

/-- The frame of an element of which nothing was read yet: no text is held back, nothing stands in
its node, and no child was met. -/
structure Begun (book : RuleBook H) (path before : List String) (name : String)
    (attributes : Table Value) (f : Frame H) : Prop where
  /-- It knows of the element what handlers cannot change. -/
  stands : f.Stands book path before name
  /-- It is sound. -/
  sound : f.Sound
  /-- No elements were counted inside. -/
  counts_eq : f.counts = []
  /-- No texts are held back. -/
  buffer_eq : f.buffer = []
  /-- The attributes of the element. -/
  attributes_eq : f.attributes = attributes
  /-- Nothing stands in its node. -/
  contents_eq : f.materializing = true → f.contents = some []

namespace Begun

variable {attributes : Table Value}

/-- A frame that has a node has an empty one. -/
theorem contents_of_some (h : f.Begun book path before name attributes) {sofar : List Content}
    (hsofar : f.contents = some sofar) : sofar = [] := by
  have hbuilt : f.materializing = true := by rw [← h.sound.built, hsofar]; rfl
  rw [h.contents_eq hbuilt] at hsofar
  exact (Option.some.inj hsofar).symm

/-- Nothing was left inside, and nothing stands in the node. -/
theorem edged (h : f.Begun book path before name attributes) : f.Edged [] := by
  intro sofar hsofar
  rw [h.contents_of_some hsofar]
  rfl

/-- What will stand in the node is what the document says of everything inside. -/
theorem total_eq (h : f.Begun book path before name attributes) (hbuilt : f.materializing = true)
    (inside : Forest) :
    f.total book (path ++ [name]) [] inside =
      some (inside.contents book (path ++ [name]) [] "") := by
  have hrun : f.run = "" := by rw [run, h.buffer_eq]; rfl
  rw [total, h.contents_eq hbuilt, hrun]
  rfl

end Begun

end Frame

namespace Session

variable {b : Behavior H σ} {view : Visit H → α} {s : Session H σ} {f : Frame H}
  {book : RuleBook H} {path before : List String}

/-! ### Calls -/

/-- The calls made as they are seen, the last one first. -/
def seen (view : Visit H → α) (s : Session H σ) : List α := s.calls.map fun c => view c.visit

/-- What a call tells is what the frame of the element tells. -/
theorem visit_call (s : Session H σ) (phase : Phase) (handler : H) (r : Rule H) (f : Frame H) :
    (s.call phase handler r (s.turn phase f)).visit = f.visit phase handler r := by
  cases phase with
  | opening => rfl
  | closing => rfl

/-- A handler that returns is called once, and the drive goes on. -/
theorem invoke_returns (view : Visit H → α) (hb : b.Returns) (phase : Phase) (handler : H)
    (r : Rule H) (s : Session H σ) (f : Frame H) :
    (s.invoke b phase handler r f).2.2 = none ∧
      (s.invoke b phase handler r f).1.stopPath = s.stopPath ∧
      (s.invoke b phase handler r f).1.seen view =
        view (f.visit phase handler r) :: s.seen view := by
  obtain ⟨hfault, hstop⟩ := hb (s.call phase handler r (s.turn phase f)) s.world (s.turn phase f)
  have hcall := congrArg view (s.visit_call phase handler r f)
  unfold invoke
  dsimp only
  rw [hfault]
  exact ⟨rfl, hstop, congrArg (· :: s.seen view) hcall⟩

/-- Handlers that return are called one after the other, one for every rule that has one. -/
theorem invokeAll_returns (hb : b.Returns) (hview : Visit.Fair b view) (phase : Phase)
    (rules : List (Rule H)) (s : Session H σ) (f : Frame H) (hstop : s.stopPath = none) :
    (invokeAll b phase rules s f).2.2 = none ∧
      (invokeAll b phase rules s f).1.stopPath = none ∧
      (b.LeavesElements → (invokeAll b phase rules s f).2.1 = f) ∧
      (invokeAll b phase rules s f).1.seen view =
        (f.visits view phase rules).reverse ++ s.seen view := by
  induction rules generalizing s f with
  | nil => exact ⟨rfl, hstop, fun _ => rfl, rfl⟩
  | cons r rest ih =>
      unfold invokeAll
      cases hr : handlerOf phase r with
      | none =>
          have hvisits : f.visits view phase (r :: rest) = f.visits view phase rest :=
            List.filterMap_cons_none (by rw [hr]; rfl)
          rw [hvisits]
          exact ih s f hstop
      | some handler =>
          have hvisits : f.visits view phase (r :: rest) =
              view (f.visit phase handler r) :: f.visits view phase rest :=
            List.filterMap_cons_some (by rw [hr]; rfl)
          have htouched := s.touched_invoke b phase handler r f
          have hsame : b.LeavesElements → (s.invoke b phase handler r f).2.1 = f := by
            intro hleaves
            rw [frame_invoke]
            exact hleaves _ _ (s.turn phase f)
          obtain ⟨hfault, hstop', hseen⟩ := invoke_returns view hb phase handler r s f
          rw [hstop] at hstop'
          have hgoes : ((s.invoke b phase handler r f).2.2.isSome ||
              (s.invoke b phase handler r f).1.stopped) = false := by
            rw [hfault, stopped, hstop']
            rfl
          dsimp only
          rw [hgoes]
          simp only [Bool.false_eq_true, ↓reduceIte]
          obtain ⟨hfault', hstop'', hsame', hseen'⟩ :=
            ih _ (s.invoke b phase handler r f).2.1 hstop'
          refine ⟨hfault', hstop'', fun hleaves => (hsame' hleaves).trans (hsame hleaves), ?_⟩
          rw [hseen', hseen, htouched.visits_eq hview hsame, hvisits, List.reverse_cons,
            List.append_assoc, List.singleton_append]

/-- For an element whose frame is on the stack the handlers of a phase are called as the document
says, as far as what they are given is what it says. -/
theorem calls_at (hb : b.Returns) (hview : Visit.Fair b view) {name : String}
    (hf : f.Stands book path before name) (phase : Phase) (subject : Subject)
    (hsubject : f.rulesFor phase ≠ [] →
      (f.subject phase).place = subject.place ∧ (b.LeavesElements → f.subject phase = subject))
    (s : Session H σ) (hstop : s.stopPath = none) :
    ∃ s' f', invokeAll b phase (f.rulesFor phase) s f = (s', f', none) ∧ s.Beside s' ∧
      f.Touched f' ∧ s'.stopPath = none ∧ (b.LeavesElements → f' = f) ∧
      s'.seen view =
        ((book.visits phase (path ++ [name]) subject).map view).reverse ++ s.seen view := by
  obtain ⟨hfault, hgoes, hsame, hseen⟩ :=
    invokeAll_returns hb hview phase (f.rulesFor phase) s f hstop
  rw [hf.visits_eq hview phase subject hsubject] at hseen
  exact ⟨_, _, Prod.ext rfl (Prod.ext rfl hfault), invokeAll_beside b phase (f.rulesFor phase) s f,
    touched_invokeAll b phase (f.rulesFor phase) s f, hgoes, hsame, hseen⟩

/-- Where there is no node there is no close handler to be called. -/
theorem invokeAll_of_stands {name : String} (hf : f.Stands book path before name) (hs : f.Sound)
    (b : Behavior H σ) (s : Session H σ) :
    (if f.contents.isSome = true then invokeAll b .closing f.closeRules s f else (s, f, none)) =
      invokeAll b .closing (f.rulesFor .closing) s f := by
  split
  · rfl
  next hnone =>
    have hrules : f.rulesFor .closing = [] := by
      by_contra hne
      exact hnone (hs.built.trans (hf.wanted hne))
    rw [hrules]
    rfl

/-! ### Elements -/

/-- The frame with which an element begins. -/
theorem begun_entering (h : s.stack.At book path before) (name : String)
    (attributes : Table Value) :
    (s.entering name attributes).2.Begun book path before name attributes ∧
      (s.stack.building = true → (s.entering name attributes).2.materializing = true) := by
  obtain ⟨hflushed, hgrown⟩ := h.flushed
  have hstands := hflushed.stands_enter name attributes
  have hbuilding : s.stack.building = true →
      ((s.stack.mapTop (·.flush false)).enter name attributes).1.materializing = true := by
    intro hbuilding
    rw [← hgrown.building_eq] at hbuilding
    exact Bool.or_eq_true_iff.mpr (.inl hbuilding)
  obtain ⟨hsound, -, -⟩ := Frame.Sound.start
    (f := ((s.stack.mapTop (·.flush false)).enter name attributes).1) rfl rfl rfl s.ledger
  have hframe : (s.entering name attributes).2 =
      (((s.stack.mapTop (·.flush false)).enter name attributes).1.start s.ledger).1 := rfl
  rw [← hframe] at hsound
  rw [Frame.start_eq rfl] at hframe
  refine ⟨⟨?_, hsound, ?_, ?_, ?_, fun hbuilt => ?_⟩, ?_⟩
  all_goals rw [hframe] at *
  · exact hstands.withState _ _ _ _ _
  · rfl
  · rfl
  · rfl
  · exact if_pos hbuilt
  · exact hbuilding

/-- **An element is entered.** Its open handlers are called as the document says, and its frame
comes on top of the stack. -/
theorem enter_at (hb : b.Returns) (hview : Visit.Fair b view) (h : s.stack.At book path before)
    (hstop : s.stopPath = none) (name : String) (attributes : Table Value) :
    ∃ s' f, s.enter b name attributes = (s', none) ∧ s'.stopPath = none ∧
      s'.stack = (s.stack.around name).push f ∧ f.Stands book path before name ∧ f.Sound ∧
      f.counts = [] ∧ (s.stack.building = true → f.materializing = true) ∧
      (b.LeavesElements → f.Begun book path before name attributes) ∧
      s'.seen view = ((book.visits .opening (path ++ [name])
        (.opening (noticeOf path before name attributes))).map view).reverse ++ s.seen view := by
  obtain ⟨hbegun, hbuilding⟩ := begun_entering h name attributes
  have hstack : (s.entering name attributes).1.stack = s.stack.around name := rfl
  have hseen : (s.entering name attributes).1.seen view = s.seen view := rfl
  have hstop' : (s.entering name attributes).1.stopPath = none := hstop
  rw [enter_eq b h.sound]
  generalize s.entering name attributes = entry at *
  obtain ⟨s', f, hcalls, hbeside, htouched, hgoes, hsame, hseen'⟩ :=
    calls_at hb hview hbegun.stands .opening (.opening (noticeOf path before name attributes))
      (fun hrules => by
        rw [hbegun.stands.subject_opening (hbegun.stands.path_of_rules hrules),
          hbegun.attributes_eq]
        exact ⟨rfl, fun _ => rfl⟩) entry.1 hstop'
  have hcounts : f.counts = [] := by
    obtain ⟨_, _, _, rfl, -⟩ := htouched
    exact hbegun.counts_eq
  refine ⟨{ s' with stack := s'.stack.push f }, f, ?_, hgoes, ?_, htouched.kin.stands hbegun.stands,
    htouched.kin.sound hbegun.sound, hcounts, ?_, fun hleaves => ?_, ?_⟩
  · have hopening : invokeAll b .opening entry.2.openRules entry.1 entry.2 = (s', f, none) := hcalls
    dsimp only
    rw [hopening]
  · rw [hbeside.stack_eq, hstack]
  · rw [htouched.kin.materializing_eq]
    exact hbuilding
  · rw [hsame hleaves]
    exact hbegun
  · rw [← hseen]
    exact hseen'

/-- **An element is left.** Its close handlers are called as the document says, and its node goes
into the one around it. -/
theorem leave_at (hb : b.Returns) (hview : Visit.Fair b view) {around : Stack H} {name : String}
    {attributes : Table Value} {inside : Forest} (hstack : s.stack = around.push f)
    (hsound : ∀ p ∈ around.frames, p.Sound) (hf : f.Stands book path before name) (hfs : f.Sound)
    (hbuilding : around.building = true → f.materializing = true) (hstop : s.stopPath = none)
    (hnode : b.LeavesElements → f.attributes = attributes ∧
      (f.materializing = true → (f.flush true).contents.map List.reverse =
        some (inside.contents book (path ++ [name]) [] ""))) :
    ∃ s' n, s.leave b = (s', none) ∧ s'.stopPath = none ∧
      s'.stack = around.mapTop (·.joined n) ∧
      (b.LeavesElements → around.building = true →
        n = some (book.node path before name attributes inside)) ∧
      s'.seen view = ((book.visits .closing (path ++ [name])
        (.closing (book.node path before name attributes inside))).map view).reverse ++
          s.seen view := by
  have hleave : s.stack.leave? = some (f, around) := by rw [hstack]; rfl
  have hkin : f.Kin f.complete := f.kin_complete
  have hstands := hkin.stands hf
  have hsound' := hkin.sound hfs
  have hbuilt' := hkin.materializing_eq
  -- what the document says of the node holds of the frame with its texts in place
  have hgiven : b.LeavesElements → f.complete.materializing = true →
      f.complete.node? = some (book.node path before name attributes inside) := by
    intro hleaves hbuilt
    obtain ⟨hattributes, hinside⟩ := hnode hleaves
    have hkept : f.complete.attributes = f.attributes :=
      (Frame.Grown.flush f true).attributes_eq
    exact hstands.node?_eq hbuilt rfl (hkept.trans hattributes) (hinside (hbuilt' ▸ hbuilt))
  unfold Session.leave
  rw [hleave]
  dsimp only
  rw [hfs.textual]
  simp only [Bool.false_eq_true, ↓reduceIte]
  generalize f.complete = g at *
  obtain ⟨s₁, hs₁⟩ :
      ∃ s₁, s₁ = ({ s with stack := around, tally := s.tally.left } : Session H σ) := ⟨_, rfl⟩
  obtain ⟨s₂, f₂, hcalls, hbeside, htouched, hgoes, hsame, hseen⟩ :=
    calls_at hb hview hstands .closing (.closing (book.node path before name attributes inside))
      (fun hrules => by
        exact ⟨rfl, fun hleaves => Frame.subject_closing (hgiven hleaves (hstands.wanted hrules))⟩)
      s₁ (hs₁ ▸ hstop)
  rw [← hs₁, invokeAll_of_stands hstands hsound', hcalls]
  -- the node goes into the one around it
  have hnode₂ : around.building = true → f₂.node?.isSome = true := by
    intro hbuilt
    rw [Frame.node?, Option.isSome_map, (htouched.kin.sound hsound').built,
      htouched.kin.materializing_eq, hbuilt']
    exact hbuilding hbuilt
  obtain ⟨fate, l, hsettle⟩ := Stack.settle_eq hsound hnode₂ s₂.ledger
  have hstack₂ : s₂.stack = around := by rw [hbeside.stack_eq, hs₁]
  have hseen₁ : s₁.seen view = s.seen view := by rw [hs₁]; rfl
  dsimp only
  rw [hstack₂, hsettle]
  refine ⟨_, f₂.node?, rfl, hgoes, rfl, fun hleaves hbuilt => ?_, ?_⟩
  · rw [hsame hleaves]
    exact hgiven hleaves (hbuilt'.trans (hbuilding hbuilt))
  · rw [← hseen₁]
    exact hseen

end Session

end MarkupRouting
